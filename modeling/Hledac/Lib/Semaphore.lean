import Mathlib.Data.List.Basic

/-!
# FIFO semaphores

The semaphore of an event loop: a count of free slots and a queue of those that wait for one. A
waiter is woken by a slot that is set aside for it, and takes the slot when it runs next; until then
it can still be cancelled. What `release` and a waiter that leaves do to the queue is written out as
in the `asyncio` of the standard library.
-/

namespace Hledac.Lib

universe u

/-- The future of a waiter: it is pending, has a slot set aside, is cancelled, or is cancelled after
its slot was set aside. -/
inductive WaiterState where
  | pending
  | granted
  | cancelled
  | withdrawn
  deriving DecidableEq, Repr

/-- A waiter. -/
structure Waiter (ι : Type u) where
  id : ι
  state : WaiterState := .pending
  deriving DecidableEq, Repr

/-- The free slots and the waiters, the first one in front. -/
structure Semaphore (ι : Type u) where
  value : Nat
  waiters : List (Waiter ι) := []
  deriving DecidableEq, Repr

namespace Semaphore

variable {ι : Type u}

/-- No slot can be taken at once, since there is none or someone is before. -/
def locked (s : Semaphore ι) : Bool :=
  decide (s.value = 0) || s.waiters.any fun w => decide (w.state ≠ .cancelled)

/-- The first pending waiter is woken. -/
def wakeFirst : List (Waiter ι) → Option (List (Waiter ι))
  | [] => none
  | w :: rest =>
    if w.state = .pending then some ({ w with state := .granted } :: rest)
    else (wakeFirst rest).map (w :: ·)

/-- A slot is set aside for the first pending waiter. -/
def wakeUpNext (s : Semaphore ι) : Option (Semaphore ι) :=
  (wakeFirst s.waiters).map fun waiters => { value := s.value - 1, waiters := waiters }

/-- At most `n` waiters are woken. -/
def wakeUp : Nat → Semaphore ι → Semaphore ι
  | 0, s => s
  | n + 1, s => match s.wakeUpNext with
    | none => s
    | some s => wakeUp n s

/-- A slot is given back. -/
def release (s : Semaphore ι) : Semaphore ι :=
  let s := { s with value := s.value + 1 }
  (s.wakeUpNext).getD s

/-- A slot is taken at once. -/
def take (s : Semaphore ι) : Semaphore ι := { s with value := s.value - 1 }

/-- A waiter comes to the queue. -/
def enqueue (s : Semaphore ι) (i : ι) : Semaphore ι := { s with waiters := s.waiters ++ [{ id := i }] }

/-- Cancelling a waiter. -/
def Waiter.cancel (w : Waiter ι) : Waiter ι :=
  match w.state with
  | .pending => { w with state := .cancelled }
  | .granted => { w with state := .withdrawn }
  | _ => w

variable [DecidableEq ι]

/-- The waiter is cancelled. -/
def cancel (s : Semaphore ι) (i : ι) : Semaphore ι :=
  { s with waiters := s.waiters.map fun w => if w.id = i then Waiter.cancel w else w }

/-- The state of the waiter. -/
def stateOf (s : Semaphore ι) (i : ι) : Option WaiterState :=
  (s.waiters.find? fun w => decide (w.id = i)).map Waiter.state

/-- The waiter runs and leaves the queue. What was set aside for it is free again where it has been
cancelled, and as many others are woken as there are free slots. -/
def leave (s : Semaphore ι) (i : ι) : Semaphore ι :=
  let value := if s.stateOf i = some .withdrawn then s.value + 1 else s.value
  wakeUp value { value := value, waiters := s.waiters.eraseP fun w => decide (w.id = i) }

/-! ### Slots -/

/-- A slot has been set aside for the waiter. -/
def Holds (w : Waiter ι) : Bool := decide (w.state = .granted) || decide (w.state = .withdrawn)

/-- The slots that are free or set aside. -/
def slots (s : Semaphore ι) : Nat := s.value + s.waiters.countP Holds

omit [DecidableEq ι]

theorem countP_wakeFirst {ws ws' : List (Waiter ι)} (h : wakeFirst ws = some ws') :
    ws'.countP Holds = ws.countP Holds + 1 := by
  induction ws generalizing ws' with
  | nil => cases h
  | cons w rest ih =>
    rw [wakeFirst] at h
    split at h
    · next hpending =>
      cases h
      have hw : Holds w = false := by rw [Holds, hpending]; rfl
      rw [List.countP_cons_of_pos rfl, List.countP_cons_of_neg (by rw [hw]; exact Bool.false_ne_true)]
    · obtain ⟨rest', hrest, rfl⟩ := Option.map_eq_some_iff.1 h
      rw [List.countP_cons, List.countP_cons, ih hrest]
      omega

theorem slots_wakeUpNext {s s' : Semaphore ι} (hpos : 0 < s.value) (h : s.wakeUpNext = some s') :
    s'.slots = s.slots ∧ s'.value = s.value - 1 := by
  obtain ⟨ws, hws, rfl⟩ := Option.map_eq_some_iff.1 h
  have hcount := countP_wakeFirst hws
  constructor
  · rw [slots, slots]
    simp only
    omega
  · rfl

theorem slots_wakeUp {n : Nat} {s : Semaphore ι} (h : n ≤ s.value) : (wakeUp n s).slots = s.slots := by
  induction n generalizing s with
  | zero => rfl
  | succ n ih =>
    rw [wakeUp]
    cases hwake : s.wakeUpNext with
    | none => rfl
    | some s' =>
      obtain ⟨hslots, hvalue⟩ := slots_wakeUpNext (by omega) hwake
      simp only
      rw [ih (by omega), hslots]

/-- Giving back adds a slot. -/
theorem slots_release (s : Semaphore ι) : s.release.slots = s.slots + 1 := by
  have hmore : ({ s with value := s.value + 1 } : Semaphore ι).slots = s.slots + 1 := by
    show s.value + 1 + s.waiters.countP Holds = s.value + s.waiters.countP Holds + 1
    omega
  rw [release]
  cases hwake : ({ s with value := s.value + 1 } : Semaphore ι).wakeUpNext with
  | none => exact hmore
  | some s' => exact (slots_wakeUpNext (Nat.succ_pos _) hwake).1.trans hmore

theorem slots_take {s : Semaphore ι} (h : 0 < s.value) : s.take.slots + 1 = s.slots := by
  show s.value - 1 + s.waiters.countP Holds + 1 = s.value + s.waiters.countP Holds
  omega

theorem value_pos_of_not_locked {s : Semaphore ι} (h : s.locked = false) : 0 < s.value := by
  rw [locked, Bool.or_eq_false_iff, decide_eq_false_iff_not] at h
  omega

theorem slots_enqueue (s : Semaphore ι) (i : ι) : (s.enqueue i).slots = s.slots := by
  rw [slots, slots, enqueue, List.countP_append, List.countP_singleton]
  rfl

theorem holds_cancel (w : Waiter ι) : Holds (Waiter.cancel w) = Holds w := by
  cases hw : w.state <;> simp [Holds, Waiter.cancel, hw]

variable [DecidableEq ι]

theorem slots_cancel (s : Semaphore ι) (i : ι) : (s.cancel i).slots = s.slots := by
  have hsame : (Holds ∘ fun w : Waiter ι => if w.id = i then Waiter.cancel w else w) = Holds := by
    ext w
    rw [Function.comp_apply]
    split
    · exact holds_cancel w
    · rfl
  rw [slots, slots, cancel, List.countP_map, hsame]

/-- A waiter takes the slot that was set aside for it, and leaves all others as they are. -/
theorem slots_leave {s : Semaphore ι} {i : ι} {state : WaiterState} (h : s.stateOf i = some state) :
    (s.leave i).slots + (if state = .granted then 1 else 0) = s.slots := by
  obtain ⟨w, hw, rfl⟩ := Option.map_eq_some_iff.1 h
  obtain ⟨hid, front, back, hsplit, hfront⟩ := List.find?_eq_some_iff_append.1 hw
  have herase : s.waiters.eraseP (fun w => decide (w.id = i)) = front ++ back := by
    rw [hsplit, List.eraseP_append_right _ (by simpa using hfront), List.eraseP_cons, hid]
    rfl
  have hleave : (s.leave i).slots = (if s.stateOf i = some .withdrawn then s.value + 1 else s.value) +
      (s.waiters.eraseP fun w => decide (w.id = i)).countP Holds := slots_wakeUp (Nat.le_refl _)
  rw [hleave, h, herase, slots, hsplit, List.countP_append, List.countP_append, List.countP_cons]
  cases hstate : w.state <;> simp [Holds, hstate] <;> omega

end Semaphore

end Hledac.Lib
