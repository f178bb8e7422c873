import Mathlib.Algebra.Ring.Int.Defs
import Hledac.Lib.Machine

/-!
# The race to the first success

`race_first_success` runs its candidates in a task group inside an `asyncio.timeout` and keeps the first
success in two holders; `utils/asyncx/_parallel.py:964-1031`. The order of what happens in the event loop
is the input.
-/

namespace Hledac.Utils

open Hledac.Lib

/-- A value as the race tests it: a tuple that starts with a `bool`, or another one with what `bool` says
of it. -/
inductive RaceValue (α : Type) where
  | flagged (flag : Bool) (rest : α)
  | other (value : α) (truth : Bool)
  deriving DecidableEq, Repr

/-- `truthy_result`; lines 1000-1003. -/
def RaceValue.truthyResult {α : Type} : RaceValue α → Bool
  | .flagged flag _ => flag
  | .other _ truth => truth

/-- What a candidate comes to when it is left alone; the last is its own `CancelledError`. -/
inductive RaceOutcome (α ε : Type) where
  | returns (value : RaceValue α)
  | raises (e : ε)
  | cancels
  deriving DecidableEq, Repr

/-- A candidate with its label; it runs until it has ended. -/
structure Candidate (α ε : Type) where
  label : String
  outcome : RaceOutcome α ε
  running : Bool := true
  deriving DecidableEq, Repr

/-- `RaceFirstSuccessResult`; lines 242-249. -/
structure RaceFirstSuccessResult (α ε : Type) where
  result : Option (RaceValue α) := none
  winnerIndex : ℤ := -1
  winnerLabel : String := ""
  errors : List ε := []
  falsyResults : List (RaceValue α) := []
  deriving DecidableEq, Repr

/-- The race with its holders; `timeout` says that there is one. -/
structure Race (α ε : Type) where
  timeout : Bool
  requireTruthy : Bool
  candidates : List (Candidate α ε)
  resultHolder : Option (RaceValue α) := none
  indexHolder : ℤ := -1
  errors : List ε := []
  falsyResults : List (RaceValue α) := []
  expired : Bool := false
  returned : Option (RaceFirstSuccessResult α ε) := none

/-- What happens in the event loop: a candidate ends, or ends by a cancellation, the timeout expires, or
the caller gets its turn. -/
inductive RaceEvent where
  | finish (candidate : Nat)
  | cancel (candidate : Nat)
  | expire
  | resume
  deriving DecidableEq, Repr

namespace Race

variable {α ε : Type}

/-- `not need_truthy or truthy_result`. -/
def success (s : Race α ε) (value : RaceValue α) : Bool := !s.requireTruthy || value.truthyResult

/-- `_set_winner`; lines 983-988. -/
def setWinner (s : Race α ε) (i : Nat) (value : RaceValue α) : Race α ε :=
  if s.indexHolder < 0 then { s with resultHolder := some value, indexHolder := i } else s

/-- `_runner` when its candidate has ended; lines 995-1012. -/
def runner (s : Race α ε) (i : Nat) : RaceOutcome α ε → Race α ε
  | .cancels => s
  | .raises e => { s with errors := s.errors ++ [e] }
  | .returns value =>
    if s.success value then s.setWinner i value
    else { s with falsyResults := s.falsyResults ++ [value] }

/-- Candidate number `i` does not run any more. -/
def stop (s : Race α ε) (i : Nat) (c : Candidate α ε) : Race α ε :=
  { s with candidates := s.candidates.set i { c with running := false } }

def finish (s : Race α ε) (i : Nat) : Race α ε :=
  match s.candidates[i]? with
  | none => s
  | some c => if c.running = true then (s.stop i c).runner i c.outcome else s

/-- Only the group that the timeout has cancelled cancels a candidate. -/
def cancel (s : Race α ε) (i : Nat) : Race α ε :=
  match s.candidates[i]? with
  | none => s
  | some c => if s.expired = true ∧ c.running = true then s.stop i c else s

/-- The timeout cancels the caller, which waits in the group or has not had its turn after it. -/
def expire (s : Race α ε) : Race α ε :=
  if s.timeout = true ∧ s.returned = none then { s with expired := true } else s

/-- No candidate runs. -/
def Settled (s : Race α ε) : Prop := ∀ c ∈ s.candidates, c.running = false

instance (s : Race α ε) : Decidable s.Settled := inferInstanceAs (Decidable (∀ c ∈ s.candidates, _))

/-- The result where the timeout has not expired; lines 1023-1031. -/
def outcomeOf (s : Race α ε) : RaceFirstSuccessResult α ε where
  result := s.resultHolder
  winnerIndex := s.indexHolder
  winnerLabel := if 0 ≤ s.indexHolder
    then ((s.candidates[s.indexHolder.toNat]?).map Candidate.label).getD "" else ""
  errors := s.errors
  falsyResults := s.falsyResults

/-- The group is left when no candidate runs, and the call returns; lines 1014-1031. -/
def resume (s : Race α ε) : Race α ε :=
  if s.returned = none ∧ s.Settled then
    { s with returned := some (if s.expired then
        { errors := s.errors, falsyResults := s.falsyResults }
      else s.outcomeOf) }
  else s

def step (s : Race α ε) : RaceEvent → Race α ε
  | .finish i => s.finish i
  | .cancel i => s.cancel i
  | .expire => s.expire
  | .resume => s.resume

/-- The race as it is entered. Without candidates the call returns before. -/
def init (timeout requireTruthy : Bool) (candidates : List (Candidate α ε)) : Race α ε where
  timeout := timeout
  requireTruthy := requireTruthy
  candidates := candidates
  returned := if candidates.isEmpty then some {} else none

def run (timeout requireTruthy : Bool) (candidates : List (Candidate α ε)) (events : List RaceEvent) :
    Race α ε :=
  events.foldl step (init timeout requireTruthy candidates)

/-! ### What it is for -/

/-- The end of the candidate is the first success, and the timeout has not expired. -/
def WinsNow (s : Race α ε) (i : Nat) (value : RaceValue α) : Prop :=
  s.expired = false ∧ s.indexHolder < 0 ∧ s.success value = true ∧
    ∃ c ∈ s.candidates[i]?, c.running = true ∧ c.outcome = .returns value

/-- The candidate returns a success. -/
def succeeds (s : Race α ε) : RaceOutcome α ε → Bool
  | .returns value => s.success value
  | _ => false

/-- The result is that of the winner, and names it. -/
structure Names (r : RaceFirstSuccessResult α ε) (i : Nat) (value : RaceValue α) (label : String) :
    Prop where
  result : r.result = some value
  winnerIndex : r.winnerIndex = i
  winnerLabel : r.winnerLabel = label

/-- From the first success on no candidate runs that has not been cancelled, the call returns the
winner when it gets its turn, and it returns nothing else. -/
def RacesFirst (timeout requireTruthy : Bool) (candidates : List (Candidate α ε))
    (events : List RaceEvent) : Prop :=
  ∀ pre i post value, events = pre ++ .finish i :: post →
    (run timeout requireTruthy candidates pre).WinsNow i value →
      let won := run timeout requireTruthy candidates (pre ++ [.finish i])
      (∀ c ∈ won.candidates, c.running = true → won.expired = true) ∧
        ∃ label, (candidates[i]?).map Candidate.label = some label ∧
          (∃ r, (won.step .resume).returned = some r ∧ Names r i value label) ∧
          ∀ r, (run timeout requireTruthy candidates events).returned = some r → Names r i value label

/-- A first success comes when no other candidate runs, and the timeout does not expire between it and
the turn of the caller. -/
def KeepsRace (s : Race α ε) : RaceEvent → Prop
  | .finish i =>
    s.expired = true ∨ 0 ≤ s.indexHolder ∨
      (∀ c ∈ s.candidates[i]?, s.succeeds c.outcome = false) ∨
      ∀ c ∈ s.candidates.eraseIdx i, c.running = false
  | .expire => s.indexHolder < 0 ∨ s.returned.isSome = true ∨ s.timeout = false
  | _ => True

instance (s : Race α ε) : ∀ e, Decidable (s.KeepsRace e)
  | .finish _ => inferInstanceAs (Decidable (_ ∨ _))
  | .expire => inferInstanceAs (Decidable (_ ∨ _))
  | .cancel _ => .isTrue trivial
  | .resume => .isTrue trivial

/-! ### Events -/

section Events

variable {s : Race α ε} {i : Nat} {value : RaceValue α} {label : String}

/-- The race is decided for the candidate. -/
structure DecidedFor (i : Nat) (value : RaceValue α) (label : String) (s : Race α ε) : Prop where
  settled : s.Settled
  expired : s.expired = false
  result : s.resultHolder = some value
  index : s.indexHolder = i
  labelled : (s.candidates[i]?).map Candidate.label = some label
  returned : ∀ r, s.returned = some r → Names r i value label

theorem finish_of_settled (h : s.Settled) (j : Nat) : s.finish j = s := by
  rw [finish]
  cases hc : s.candidates[j]? with
  | none => rfl
  | some c => exact if_neg (by simp [h c (List.mem_of_getElem? hc)])

theorem cancel_of_settled (h : s.Settled) (j : Nat) : s.cancel j = s := by
  rw [cancel]
  cases hc : s.candidates[j]? with
  | none => rfl
  | some c => exact if_neg (by simp [h c (List.mem_of_getElem? hc)])

theorem DecidedFor.names (h : s.DecidedFor i value label) : Names s.outcomeOf i value label where
  result := h.result
  winnerIndex := h.index
  winnerLabel := by
    have hnonneg : (0 : ℤ) ≤ i := Int.natCast_nonneg i
    rw [outcomeOf, h.index, if_pos hnonneg, Int.toNat_natCast, h.labelled]
    rfl

theorem DecidedFor.resume (h : s.DecidedFor i value label) :
    s.resume.DecidedFor i value label ∧ s.resume.returned.isSome = true := by
  rw [Race.resume]
  split
  · refine ⟨⟨h.settled, h.expired, h.result, h.index, h.labelled, ?_⟩, rfl⟩
    intro r hr
    rw [h.expired] at hr
    obtain rfl := Option.some_inj.1 hr
    exact h.names
  · next hnot =>
    refine ⟨h, ?_⟩
    rw [Option.isSome_iff_ne_none]
    exact fun hc => hnot ⟨hc, h.settled⟩

theorem DecidedFor.step (h : s.DecidedFor i value label) {e : RaceEvent} (hkeeps : s.KeepsRace e) :
    (s.step e).DecidedFor i value label := by
  cases e with
  | finish j =>
    rw [Race.step, finish_of_settled h.settled]
    exact h
  | cancel j =>
    rw [Race.step, cancel_of_settled h.settled]
    exact h
  | expire =>
    have hno : ¬ (s.timeout = true ∧ s.returned = none) := by
      intro hc
      cases hkeeps with
      | inl hneg =>
        rw [h.index] at hneg
        exact absurd (Int.natCast_nonneg i) (Int.not_le.2 hneg)
      | inr hrest => simp [hc.1, hc.2] at hrest
    rw [Race.step, expire, if_neg hno]
    exact h
  | resume => exact h.resume.1

/-- The call has not returned while a candidate runs. -/
def ReturnsSettled (s : Race α ε) : Prop := s.returned ≠ none → s.Settled

theorem settled_stop (h : s.Settled) (c : Candidate α ε) : (s.stop i c).Settled := by
  intro d hd
  cases List.mem_or_eq_of_mem_set hd with
  | inl hold => exact h d hold
  | inr hnew => rw [hnew]

theorem runner_frame (s : Race α ε) (i : Nat) (outcome : RaceOutcome α ε) :
    (s.runner i outcome).candidates = s.candidates ∧ (s.runner i outcome).returned = s.returned ∧
      (s.runner i outcome).expired = s.expired := by
  cases outcome with
  | cancels => exact ⟨rfl, rfl, rfl⟩
  | raises e => exact ⟨rfl, rfl, rfl⟩
  | returns value =>
    rw [runner]
    split
    · rw [setWinner]
      split <;> exact ⟨rfl, rfl, rfl⟩
    · exact ⟨rfl, rfl, rfl⟩

theorem ReturnsSettled.step (h : s.ReturnsSettled) (e : RaceEvent) : (s.step e).ReturnsSettled := by
  cases e with
  | finish j =>
    rw [Race.step, finish]
    cases s.candidates[j]? with
    | none => exact h
    | some c =>
      simp only
      split
      · obtain ⟨hcandidates, hreturned, _⟩ := (s.stop j c).runner_frame j c.outcome
        intro hne
        rw [hreturned] at hne
        rw [Settled, hcandidates]
        exact settled_stop (h hne) c
      · exact h
  | cancel j =>
    rw [Race.step, cancel]
    cases s.candidates[j]? with
    | none => exact h
    | some c =>
      simp only
      split
      · exact fun hne => settled_stop (h hne) c
      · exact h
  | expire =>
    rw [Race.step, expire]
    split
    · exact h
    · exact h
  | resume =>
    rw [Race.step, Race.resume]
    split
    · next hboth => exact fun _ => hboth.2
    · exact h

/-- The first success decides the race where no other candidate runs. -/
theorem decidedFor_of_wins (hreturns : s.ReturnsSettled) (hwins : s.WinsNow i value)
    (hkeeps : s.KeepsRace (.finish i)) :
    ∃ label, (s.candidates[i]?).map Candidate.label = some label ∧
      (s.step (.finish i)).DecidedFor i value label := by
  obtain ⟨hlive, hnone, hsuccess, c, hc, hrunning, houtcome⟩ := hwins
  have hget := Option.mem_def.1 hc
  have hothers : ∀ d ∈ s.candidates.eraseIdx i, d.running = false := by
    rcases hkeeps with hexpired | hpos | hfails | hothers
    · rw [hlive] at hexpired
      cases hexpired
    · exact absurd hpos (Int.not_le.2 hnone)
    · have hfails' := hfails c hc
      rw [houtcome, succeeds, hsuccess] at hfails'
      cases hfails'
    · exact hothers
  have hreturned : s.returned = none := by
    by_contra hne
    have hstopped := hreturns hne c (List.mem_of_getElem? hget)
    rw [hrunning] at hstopped
    cases hstopped
  have hstep : s.step (.finish i) = { s.stop i c with resultHolder := some value, indexHolder := i } := by
    have hstopSuccess : (s.stop i c).success value = true := hsuccess
    have hstopNone : (s.stop i c).indexHolder < 0 := hnone
    rw [step, finish, hget]
    simp only
    rw [if_pos hrunning, houtcome, runner, if_pos hstopSuccess, setWinner, if_pos hstopNone]
  obtain ⟨hlt, hat⟩ := List.getElem?_eq_some_iff.1 hget
  refine ⟨c.label, by rw [hget]; rfl, ?_⟩
  rw [hstep]
  refine ⟨?_, hlive, rfl, rfl, ?_, ?_⟩
  · intro d hd
    have hd' : d ∈ s.candidates.set i { c with running := false } := hd
    obtain ⟨j, hj⟩ := List.mem_iff_getElem?.1 hd'
    by_cases hji : j = i
    · rw [hji, List.getElem?_set_self hlt] at hj
      rw [← Option.some_inj.1 hj]
    · rw [List.getElem?_set_ne fun hc => hji hc.symm] at hj
      exact hothers d (List.mem_eraseIdx_iff_getElem?.2 ⟨j, hji, hj⟩)
  · show ((s.candidates.set i { c with running := false })[i]?).map Candidate.label = some c.label
    rw [List.getElem?_set_self hlt]
    rfl
  · intro r hr
    rw [show ({ s.stop i c with resultHolder := some value, indexHolder := i } : Race α ε).returned =
      s.returned from rfl, hreturned] at hr
    cases hr

theorem labels_stop {c : Candidate α ε} (h : s.candidates[i]? = some c) :
    (s.stop i c).candidates.map Candidate.label = s.candidates.map Candidate.label := by
  obtain ⟨hlt, hget⟩ := List.getElem?_eq_some_iff.1 h
  have hsame : s.candidates.set i c = s.candidates := by
    rw [← hget]
    exact List.set_getElem_self hlt
  show (s.candidates.set i { c with running := false }).map Candidate.label = _
  rw [List.map_set, ← hsame, List.map_set, List.set_set]

theorem labels_step (s : Race α ε) (e : RaceEvent) :
    (s.step e).candidates.map Candidate.label = s.candidates.map Candidate.label := by
  cases e with
  | finish j =>
    rw [step, finish]
    cases hc : s.candidates[j]? with
    | none => rfl
    | some c =>
      simp only
      split
      · rw [((s.stop j c).runner_frame j c.outcome).1]
        exact labels_stop hc
      · rfl
  | cancel j =>
    rw [step, cancel]
    cases hc : s.candidates[j]? with
    | none => rfl
    | some c =>
      simp only
      split
      · exact labels_stop hc
      · rfl
  | expire =>
    rw [step, expire]
    split <;> rfl
  | resume =>
    rw [step, Race.resume]
    split <;> rfl

end Events

section Runs

variable (timeout requireTruthy : Bool) (candidates : List (Candidate α ε))

theorem returnsSettled_run (events : List RaceEvent) :
    (run timeout requireTruthy candidates events).ReturnsSettled := by
  apply foldl_invariant (fun _ e hs => hs.step e) events
  intro hne c hc
  have hc' : c ∈ candidates := hc
  have hnil : (init timeout requireTruthy candidates).returned = none := by
    show (if candidates.isEmpty then some _ else none) = none
    rw [List.isEmpty_eq_false_iff.2 (List.ne_nil_of_mem hc'), if_neg Bool.false_ne_true]
  exact absurd hnil hne

theorem labels_run (events : List RaceEvent) :
    (run timeout requireTruthy candidates events).candidates.map Candidate.label =
      candidates.map Candidate.label := by
  have hstep (s : Race α ε) (e : RaceEvent)
      (hs : s.candidates.map Candidate.label = candidates.map Candidate.label) :
      (s.step e).candidates.map Candidate.label = candidates.map Candidate.label :=
    (labels_step s e).trans hs
  exact foldl_invariant hstep events rfl

/-- The call is a race as long as a first success comes when all other candidates have ended and is not
overtaken by the timeout before the caller's turn. -/
theorem racesFirst_of_keepsRace {events : List RaceEvent}
    (h : StepsMeet step KeepsRace (init timeout requireTruthy candidates) events) :
    RacesFirst timeout requireTruthy candidates events := by
  intro pre i post value hevents hwins
  subst hevents
  obtain ⟨_, hkeeps, hpost⟩ := stepsMeet_append.1 h
  obtain ⟨label, hlabel, hdecided⟩ :=
    decidedFor_of_wins (returnsSettled_run timeout requireTruthy candidates pre) hwins hkeeps
  have hwon : run timeout requireTruthy candidates (pre ++ [.finish i]) =
      (run timeout requireTruthy candidates pre).step (.finish i) := by
    rw [run, List.foldl_append]
    rfl
  have hlabel' : (candidates[i]?).map Candidate.label = some label := by
    rw [← List.getElem?_map] at hlabel ⊢
    rw [← labels_run timeout requireTruthy candidates pre]
    exact hlabel
  simp only
  rw [hwon]
  refine ⟨?_, label, hlabel', ?_, ?_⟩
  · intro c hc hrunning
    rw [hdecided.settled c hc] at hrunning
    cases hrunning
  · obtain ⟨hafter, hreturned⟩ := hdecided.resume
    obtain ⟨r, hr⟩ := Option.isSome_iff_exists.1 hreturned
    exact ⟨r, hr, hafter.returned r hr⟩
  · have hend := hpost.invariant (I := DecidedFor i value label) (fun _ _ hs hk => hs.step hk) hdecided
    rw [run, List.foldl_append, List.foldl_cons]
    exact hend.returned

end Runs

/-- The second of two candidates fails, and the first one succeeds. -/
theorem racesFirst_last_success :
    RacesFirst true true [⟨"a", .returns (.other 1 true), true⟩, ⟨"b", .raises "boom", true⟩]
      [.finish 1, .finish 0, .resume] :=
  racesFirst_of_keepsRace true true _ (by decide)

/-- A candidate that never ends holds up the first success until the timeout, and then it is lost. -/
theorem not_racesFirst_slow_sibling :
    ¬ ∀ (timeout requireTruthy : Bool) (candidates : List (Candidate Nat String))
      (events : List RaceEvent), RacesFirst timeout requireTruthy candidates events := by
  intro h
  obtain ⟨_, label, _, _, hreturns⟩ := h true true
    [⟨"a", .returns (.other 1 true), true⟩, ⟨"b", .returns (.other 2 true), true⟩]
    [.finish 0, .expire, .cancel 1, .resume] [] 0 [.expire, .cancel 1, .resume] (.other 1 true) rfl
    ⟨rfl, by decide, rfl, _, rfl, rfl, rfl⟩
  have hresult := (hreturns {} (by decide)).result
  cases hresult

end Race

end Hledac.Utils
