import Mathlib.Algebra.BigOperators.Group.List.Basic
import Mathlib.Algebra.Order.Field.Rat
import Mathlib.Data.List.MinMax
import Mathlib.Order.WithBot
import Hledac.Lib.Dict

/-!
# Anytime beam search, and the planner on top of it

`anytime_beam_search` of `src/planning/search.py`. In each pass the best-scored nodes of the beam are visited: of a
goal the plan is kept where it is worth more than those before, and any other node makes room for its successors
within the budgets. Numbers are rational, and the loop ends where its clock is read no more. `HTNPlanner.plan` of
`src/planning/htn_planner.py` searches the states of a list of tasks.
-/

namespace Hledac.Planning

open Hledac.Lib

variable {S A : Type}

/-! ### The search -/

/-- What `expand` returns for one successor. -/
structure Successor (S A : Type) where
  action : Option A
  state : S
  timeCost : ℚ
  ramCost : ℚ
  netCost : ℚ
  value : ℚ

/-- `SearchNode`; a node that has a parent adds what its successor costs and is worth. -/
inductive SearchNode (S A : Type) where
  | root (state : S)
  | child (parent : SearchNode S A) (succ : Successor S A) (score : ℚ)

namespace SearchNode

def state : SearchNode S A → S
  | root s => s
  | child _ u _ => u.state

/-- A number that each successor adds to. -/
def total (f : Successor S A → ℚ) : SearchNode S A → ℚ
  | root _ => 0
  | child node u _ => node.total f + f u

def cost (node : SearchNode S A) : ℚ := node.total Successor.timeCost

def ramCost (node : SearchNode S A) : ℚ := node.total Successor.ramCost

def netCost (node : SearchNode S A) : ℚ := node.total Successor.netCost

def value (node : SearchNode S A) : ℚ := node.total Successor.value

def score : SearchNode S A → ℚ
  | root _ => 0
  | child _ _ q => q

/-- The loop of `_reconstruct_plan`, which goes from a node to its parent. -/
def actions : SearchNode S A → List A
  | root _ => []
  | child node u _ => u.action.toList ++ node.actions

/-- `_reconstruct_plan`, line 103. -/
def reconstructPlan (node : SearchNode S A) : List A := node.actions.reverse

end SearchNode

/-- The arguments of the search. What the callbacks and the governor answer may change from moment to moment. -/
structure SearchArgs (S A : Type) where
  goalCheck : S → Bool
  expand : Nat → S → List (Successor S A)
  heuristic : Nat → S → ℚ × ℚ × ℚ
  canAfford : Nat → ℚ → Bool
  timeBudget : ℚ
  ramBudgetMb : ℚ
  netBudgetMb : ℚ
  beamWidth : Nat := 10

/-- The variables of the loop, and the moment. -/
structure SearchState (S A : Type) where
  beam : List (SearchNode S A)
  bestPlan : Option (List A) := none
  bestValue : WithBot ℚ := ⊥
  moment : Nat := 0

section Search

variable (c : SearchArgs S A)

/-- `expected_value / expected_time`, or the value alone; lines 90-97. -/
def scoreOf (moment : Nat) (node : SearchNode S A) (u : Successor S A) : ℚ :=
  let (hVal, hTime, _) := c.heuristic moment u.state
  let expectedValue := node.value + u.value + hVal
  let expectedTime := node.cost + u.timeCost + hTime
  if 0 < expectedTime then expectedValue / expectedTime else expectedValue

/-- The body of the inner loop, lines 72-98. -/
def consider (node : SearchNode S A) (st : SearchState S A) (u : Successor S A) : SearchState S A :=
  if c.timeBudget < node.cost + u.timeCost then st
  else if c.ramBudgetMb < node.ramCost + u.ramCost then st
  else if c.netBudgetMb < node.netCost + u.netCost then st
  else if c.canAfford st.moment u.ramCost then
    { st with beam := st.beam ++ [.child node u (scoreOf c st.moment node u)], moment := st.moment + 1 }
  else { st with moment := st.moment + 1 }

/-- The body of the loop over the beam, lines 66-98; `beam` is `next_beam`. -/
def visit (st : SearchState S A) (node : SearchNode S A) : SearchState S A :=
  if c.goalCheck node.state then
    if st.bestValue < node.value then
      { st with bestPlan := some node.reconstructPlan, bestValue := (node.value : WithBot ℚ) }
    else st
  else (c.expand st.moment node.state).foldl (consider c node) { st with moment := st.moment + 1 }

/-- The nodes that a pass visits, lines 63-64. -/
def bestOf (beam : List (SearchNode S A)) : List (SearchNode S A) :=
  (beam.mergeSort fun a b => decide (b.score ≤ a.score)).take c.beamWidth

/-- The loop, for the times that the clock gives; lines 62-99. The nodes visited are kept as well. -/
def searchLoop : List ℚ → SearchState S A → List (SearchNode S A) → SearchState S A × List (SearchNode S A)
  | [], st, seen => (st, seen)
  | elapsed :: rest, st, seen =>
    if st.beam.isEmpty = false ∧ elapsed < c.timeBudget then
      searchLoop rest ((bestOf c st.beam).foldl (visit c) { st with beam := [] }) (seen ++ bestOf c st.beam)
    else (st, seen)

/-- Of some nodes the first goal that is worth most. -/
def bestGoal (nodes : List (SearchNode S A)) : Option (SearchNode S A) :=
  (nodes.filter fun node => c.goalCheck node.state).argmax SearchNode.value

def search (initialState : S) (clock : List ℚ) : SearchState S A × List (SearchNode S A) :=
  searchLoop c clock { beam := [.root initialState] } []

/-- `anytime_beam_search`, line 42. -/
def anytimeBeamSearch (initialState : S) (clock : List ℚ) : Option (List A) := (search c initialState clock).1.bestPlan

end Search

/-! ### What it returns -/

/-- A way of successors from one state to another. -/
inductive Way (expand : Nat → S → List (Successor S A)) (s : S) : List (Successor S A) → S → Prop
  | nil : Way expand s [] s
  | concat {p : List (Successor S A)} {t : S} {k : Nat} {u : Successor S A} (h : Way expand s p t)
    (hu : u ∈ expand k t) : Way expand s (p ++ [u]) u.state

theorem Way.eq_of_nil {expand : Nat → S → List (Successor S A)} {s t : S} {p : List (Successor S A)}
    (h : Way expand s p t) (hp : p = []) : t = s := by
  cases h with
  | nil => rfl
  | concat => exact absurd hp (List.append_ne_nil_of_right_ne_nil _ (List.cons_ne_nil _ _))

/-- All together the successors keep the budgets. -/
def Within (c : SearchArgs S A) (p : List (Successor S A)) : Prop :=
  (p.map Successor.timeCost).sum ≤ c.timeBudget ∧ (p.map Successor.ramCost).sum ≤ c.ramBudgetMb ∧
    (p.map Successor.netCost).sum ≤ c.netBudgetMb

/-- A way to a node: it goes through states that are no goals, and each start of it keeps the budgets. -/
structure LeadsTo (c : SearchArgs S A) (s : S) (p : List (Successor S A)) (node : SearchNode S A) : Prop where
  way : Way c.expand s p node.state
  within : ∀ q, q ≠ [] → q <+: p → Within c q
  total : ∀ f, node.total f = (p.map f).sum
  plan : node.reconstructPlan = p.filterMap Successor.action

section Spec

variable {c : SearchArgs S A} {s : S} {st : SearchState S A} {seen : List (SearchNode S A)} {node : SearchNode S A}

theorem leadsTo_root : LeadsTo c s [] (.root s) :=
  ⟨.nil, fun _ hne hq => absurd (List.prefix_nil.1 hq) hne, fun _ => rfl, rfl⟩

theorem LeadsTo.child {p : List (Successor S A)} (h : LeadsTo c s p node) {k : Nat} {u : Successor S A}
    (hu : u ∈ c.expand k node.state) (ht : ¬ c.timeBudget < node.cost + u.timeCost)
    (hr : ¬ c.ramBudgetMb < node.ramCost + u.ramCost) (hn : ¬ c.netBudgetMb < node.netCost + u.netCost) (score : ℚ) :
    LeadsTo c s (p ++ [u]) (.child node u score) where
  way := h.way.concat hu
  within q hne hq := by
    obtain heq | hq := List.prefix_concat_iff.1 hq
    · rw [heq, Within]
      simp only [List.map_append, List.sum_append, List.map_singleton, List.sum_singleton, ← h.total]
      exact ⟨not_lt.1 ht, not_lt.1 hr, not_lt.1 hn⟩
    · exact h.within q hne hq
  total f := by rw [SearchNode.total, h.total, List.map_append, List.sum_append, List.map_singleton, List.sum_singleton]
  plan := by
    have hplan := h.plan
    rw [SearchNode.reconstructPlan] at hplan ⊢
    rw [SearchNode.actions, List.reverse_append, hplan, List.filterMap_append]
    cases hu : u.action <;> simp [hu]

structure Sound (c : SearchArgs S A) (s : S) (seen : List (SearchNode S A)) (st : SearchState S A) : Prop where
  beam : ∀ node ∈ st.beam, ∃ p, LeadsTo c s p node
  visited : ∀ node ∈ seen, ∃ p, LeadsTo c s p node
  plan : st.bestPlan = (bestGoal c seen).map SearchNode.reconstructPlan
  value : st.bestValue = (bestGoal c seen).elim ⊥ fun node => (node.value : WithBot ℚ)

theorem Sound.consider (h : Sound c s seen st) {p : List (Successor S A)} (hnode : LeadsTo c s p node)
    {k : Nat} {u : Successor S A} (hu : u ∈ c.expand k node.state) : Sound c s seen (consider c node st u) := by
  rw [Planning.consider]
  split_ifs with ht hr hn hafford
  · exact h
  · exact h
  · exact h
  · refine { h with beam := fun other hother => ?_ }
    obtain hother | hother := List.mem_append.1 hother
    · exact h.beam other hother
    · exact ⟨_, List.mem_singleton.1 hother ▸ hnode.child hu ht hr hn _⟩
  · exact { h with }

theorem bestGoal_concat_goal (seen : List (SearchNode S A)) (hgoal : c.goalCheck node.state = true) :
    bestGoal c (seen ++ [node]) = match bestGoal c seen with
      | none => some node
      | some best => if best.value < node.value then some node else some best := by
  have hnew : [node].filter (fun node => c.goalCheck node.state) = [node] := by simp [hgoal]
  rw [bestGoal, List.filter_append, hnew, List.argmax_concat, ← bestGoal]
  cases bestGoal c seen <;> rfl

theorem bestGoal_concat_of_not_goal (seen : List (SearchNode S A)) (hgoal : c.goalCheck node.state = false) :
    bestGoal c (seen ++ [node]) = bestGoal c seen := by
  have hnew : [node].filter (fun node => c.goalCheck node.state) = [] := by simp [hgoal]
  rw [bestGoal, List.filter_append, hnew, List.append_nil, ← bestGoal]

theorem Sound.visit (h : Sound c s seen st) {p : List (Successor S A)} (hnode : LeadsTo c s p node) :
    Sound c s (seen ++ [node]) (visit c st node) := by
  have hseen : ∀ other ∈ seen ++ [node], ∃ p, LeadsTo c s p other := by
    intro other hother
    obtain hother | hother := List.mem_append.1 hother
    · exact h.visited other hother
    · exact ⟨p, List.mem_singleton.1 hother ▸ hnode⟩
  cases hgoal : c.goalCheck node.state with
  | true =>
    have hbest := bestGoal_concat_goal seen hgoal
    have hplan := h.plan
    have hvalue := h.value
    rw [Planning.visit, if_pos hgoal]
    cases hold : bestGoal c seen with
    | none =>
      rw [hold] at hvalue hbest
      rw [hvalue, Option.elim_none, if_pos (WithBot.bot_lt_coe _)]
      exact ⟨h.beam, hseen, by rw [hbest]; rfl, by rw [hbest]; rfl⟩
    | some best =>
      rw [hold] at hplan hvalue hbest
      dsimp only at hbest
      by_cases hlt : best.value < node.value
      · rw [if_pos hlt] at hbest
        rw [if_pos (by rw [hvalue]; exact WithBot.coe_lt_coe.2 hlt)]
        exact ⟨h.beam, hseen, by rw [hbest]; rfl, by rw [hbest]; rfl⟩
      · rw [if_neg hlt] at hbest
        rw [if_neg (by rw [hvalue]; exact mt WithBot.coe_lt_coe.1 hlt)]
        exact ⟨h.beam, hseen, by rw [hbest, hplan], by rw [hbest, hvalue]⟩
  | false =>
    have hbest := bestGoal_concat_of_not_goal seen hgoal
    rw [Planning.visit, if_neg (by rw [hgoal]; exact Bool.false_ne_true)]
    refine List.foldlRecOn (motive := Sound c s (seen ++ [node])) _ _ ⟨h.beam, hseen, ?_, ?_⟩
      fun st hst u hu => hst.consider hnode hu
    · rw [hbest, h.plan]
    · rw [hbest, h.value]

theorem Sound.visitAll {nodes : List (SearchNode S A)} (hnodes : ∀ node ∈ nodes, ∃ p, LeadsTo c s p node)
    (h : Sound c s seen st) : Sound c s (seen ++ nodes) (nodes.foldl (Planning.visit c) st) := by
  induction nodes generalizing seen st with
  | nil => rwa [List.append_nil]
  | cons node nodes ih =>
    obtain ⟨p, hnode⟩ := hnodes node List.mem_cons_self
    rw [List.append_cons]
    exact ih (fun other hother => hnodes other (List.mem_cons_of_mem node hother)) (h.visit hnode)

theorem Sound.searchLoop (clock : List ℚ) (h : Sound c s seen st) :
    Sound c s (searchLoop c clock st seen).2 (searchLoop c clock st seen).1 := by
  induction clock generalizing st seen with
  | nil => exact h
  | cons elapsed clock ih =>
    rw [Planning.searchLoop]
    split
    · refine ih (Sound.visitAll (fun node hnode => h.beam node ?_) { h with beam := nofun })
      exact (List.mergeSort_perm _ _).mem_iff.1 (List.mem_of_mem_take hnode)
    · exact h

theorem prefix_searchLoop (clock more : List ℚ) (st : SearchState S A) (seen : List (SearchNode S A)) :
    (searchLoop c clock st seen).2 <+: (searchLoop c (clock ++ more) st seen).2 := by
  induction clock generalizing st seen with
  | nil =>
    rw [List.nil_append, searchLoop]
    induction more generalizing st seen with
    | nil => exact List.prefix_rfl
    | cons elapsed more ih =>
      rw [searchLoop]
      split
      · exact (List.prefix_append _ _).trans (ih _ _)
      · exact List.prefix_rfl
  | cons elapsed clock ih =>
    rw [List.cons_append, searchLoop, searchLoop]
    split
    · exact ih _ _
    · exact List.prefix_rfl

theorem Sound.search (c : SearchArgs S A) (s : S) (clock : List ℚ) :
    Sound c s (search c s clock).2 (search c s clock).1 := by
  refine Sound.searchLoop clock ⟨fun node hnode => ?_, nofun, rfl, rfl⟩
  exact ⟨[], List.mem_singleton.1 hnode ▸ leadsTo_root⟩

end Spec

/-- An entry of `_task_types`; `X` is the type of contexts. -/
structure TaskType (T X : Type) where
  primitive : Bool
  expander : T → X → List T

/-- What `plan` uses of the planner. The estimates hang on the state of the system at the moment. -/
structure HTNPlanner (T X : Type) where
  taskTypes : Dict String (TaskType T X)
  typeOf : T → String
  estimateCost : Nat → T → ℚ
  estimateRam : Nat → T → ℚ
  estimateNetwork : Nat → T → ℚ
  estimateValue : Nat → T → ℚ

/-- The states of the search; lines 705-712. -/
structure PlanState (T X : Type) where
  pending : List T
  done : List T
  context : X
  costSoFar : ℚ
  ramSoFar : ℚ
  valueSoFar : ℚ

namespace HTNPlanner

variable {T X : Type} (h : HTNPlanner T X)

/-- The entry of a task's type, or that of `other`. -/
def entry (task : T) : Option (TaskType T X) := (h.taskTypes.get? (h.typeOf task)).or (h.taskTypes.get? "other")

/-- `expand`; lines 717-763. -/
def expand (k : Nat) (st : PlanState T X) : List (Successor (PlanState T X) T) :=
  match st.pending with
  | [] => []
  | task :: rest =>
    match h.entry task with
    | none => []
    | some ty =>
      if ty.primitive then
        let cost := h.estimateCost k task
        let ram := h.estimateRam k task
        let value := h.estimateValue k task
        [⟨some task, ⟨rest, st.done ++ [task], st.context, st.costSoFar + cost, st.ramSoFar + ram,
          st.valueSoFar + value⟩, cost, ram, h.estimateNetwork k task, value⟩]
      else [⟨none, { st with pending := ty.expander task st.context ++ rest }, 0, 0, 0, 0⟩]

/-- `heuristic`; lines 765-779. -/
def heuristic (k : Nat) (st : PlanState T X) : ℚ × ℚ × ℚ :=
  ((st.pending.map (h.estimateValue k)).sum, (st.pending.map (h.estimateCost k)).sum,
    (st.pending.map (h.estimateRam k)).sum)

/-- What `plan` hands to the search; line 781. -/
def searchArgs (canAfford : Nat → ℚ → Bool) (timeBudget ramBudgetMb netBudgetMb : ℚ) : SearchArgs (PlanState T X) T :=
  { goalCheck := fun st => st.pending.isEmpty, expand := h.expand, heuristic := h.heuristic
    canAfford, timeBudget, ramBudgetMb, netBudgetMb, beamWidth := 5 }

/-- `plan`, line 690, for the tasks that the decomposer gives. -/
def plan (c : SearchArgs (PlanState T X) T) (tasks : List T) (context : X) (clock : List ℚ) : Option (List T) :=
  if tasks.isEmpty then none else anytimeBeamSearch c ⟨tasks, [], context, 0, 0, 0⟩ clock

/-- The primitive tasks that a list of tasks comes to, from left to right. -/
inductive Decomposes (context : X) : List T → List T → Prop
  | nil : Decomposes context [] []
  | primitive {task : T} {rest p : List T} {ty : TaskType T X} (hentry : h.entry task = some ty)
    (hprimitive : ty.primitive = true) (hrest : Decomposes context rest p) : Decomposes context (task :: rest) (task :: p)
  | compound {task : T} {rest p : List T} {ty : TaskType T X} (hentry : h.entry task = some ty)
    (hcompound : ty.primitive = false) (hrest : Decomposes context (ty.expander task context ++ rest) p) :
    Decomposes context (task :: rest) p

/-- What has been done and estimated on a way, and what is left to do. -/
structure Follows (context : X) (tasks : List T) (q : List (Successor (PlanState T X) T)) (st : PlanState T X)
    (estimates : List (ℚ × ℚ × ℚ)) : Prop where
  same : st.context = context
  done : st.done = q.filterMap Successor.action
  decomposes : ∀ p, h.Decomposes context st.pending p → h.Decomposes context tasks (st.done ++ p)
  estimated : List.Forall₂ (fun task e => ∃ k, e = (h.estimateCost k task, h.estimateRam k task, h.estimateNetwork k task))
    st.done estimates
  cost : (q.map Successor.timeCost).sum = (estimates.map Prod.fst).sum
  ramCost : (q.map Successor.ramCost).sum = (estimates.map fun e => e.2.1).sum
  netCost : (q.map Successor.netCost).sum = (estimates.map fun e => e.2.2).sum

variable {h}

theorem exists_follows {context : X} {tasks : List T} {q : List (Successor (PlanState T X) T)} {st : PlanState T X}
    (hway : Way h.expand ⟨tasks, [], context, 0, 0, 0⟩ q st) : ∃ estimates, h.Follows context tasks q st estimates := by
  induction hway with
  | nil => exact ⟨[], rfl, rfl, fun p hp => hp, .nil, rfl, rfl, rfl⟩
  | @concat q t k u _ hu ih =>
    obtain ⟨estimates, ih⟩ := ih
    rw [expand] at hu
    split at hu
    · cases hu
    · next task rest hpending =>
      split at hu
      · cases hu
      · next ty hentry =>
        split at hu
        · next hprimitive =>
          obtain rfl := List.mem_singleton.1 hu
          refine ⟨estimates ++ [(h.estimateCost k task, h.estimateRam k task, h.estimateNetwork k task)], ih.same,
            by simp [ih.done], fun p hp => ?_, ?_, by simp [ih.cost], by simp [ih.ramCost], by simp [ih.netCost]⟩
          · rw [List.append_assoc]
            exact ih.decomposes _ (hpending ▸ .primitive hentry hprimitive hp)
          · exact List.rel_append ih.estimated (.cons ⟨k, rfl⟩ .nil)
        · next hcompound =>
          obtain rfl := List.mem_singleton.1 hu
          refine ⟨estimates, ih.same, by simp [ih.done], fun p hp => ?_, ih.estimated, by simp [ih.cost],
            by simp [ih.ramCost], by simp [ih.netCost]⟩
          have hrest : h.Decomposes context (ty.expander task t.context ++ rest) p := hp
          rw [ih.same] at hrest
          exact ih.decomposes p (hpending ▸ .compound hentry (Bool.eq_false_iff.2 hcompound) hrest)

end HTNPlanner

end Hledac.Planning
