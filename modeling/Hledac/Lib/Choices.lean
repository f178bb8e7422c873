import Hledac.Lib.Grouping

/-!
# Outcomes of independent choices

Each of some items is decided by one of its candidates, and the candidates of different items are chosen independently.
A candidate may fail, which fails everything; otherwise it speaks against some subjects, and a subject is hit that is
spoken against at least `n` times, or that is hit anyway. When the choices do not matter to who is hit can be told
from the items one by one.
-/

namespace Hledac.Lib

universe u v w

/-- Items that are decided, their candidates, which candidates do not fail, whom they speak against, and who is hit
anyway. -/
@[ext] structure Choices (K : Type u) (M : Type v) (S : Type w) where
  decided : K → Prop
  leads : K → M → Prop
  returns : K → M → Prop
  against : K → M → S → Prop
  anyway : S → Prop

namespace Choices

variable {K : Type u} {M : Type v} {S : Type w} (d : Choices K M S) (n : Nat)

/-- A candidate for every item that is decided. -/
def Allowed (c : K → M) : Prop := ∀ k, d.decided k → d.leads k (c k)

/-- The subject is spoken against at least `n` times, or hit anyway. -/
def Hits (c : K → M) (s : S) : Prop := AtLeast n (fun k => d.decided k ∧ d.against k (c k) s) ∨ d.anyway s

/-- Who is hit: nobody where a candidate fails. -/
def Outcome (c : K → M) (s : S) : Prop := (∀ k, d.decided k → d.returns k (c k)) ∧ d.Hits n c s

/-- Some candidate that does not fail speaks against the subject. -/
def May (s : S) (k : K) : Prop := d.decided k ∧ ∃ m, d.leads k m ∧ d.returns k m ∧ d.against k m s

/-- Every candidate speaks against the subject. -/
def Must (s : S) (k : K) : Prop := d.decided k ∧ ∀ m, d.leads k m → d.against k m s

/-- An item of which every candidate fails. -/
def Fails : Prop := ∃ k, d.decided k ∧ ∀ m, d.leads k m → ¬ d.returns k m

/-- No candidate fails. -/
def Total : Prop := ∀ k m, d.decided k → d.leads k m → d.returns k m

/-- Nobody can be hit. -/
def Harmless : Prop := ∀ s, ¬ d.anyway s ∧ ¬ AtLeast n (d.May s)

/-- Whether a subject is hit is certain. -/
def Certain (s : S) : Prop := d.anyway s ∨ ¬ AtLeast n (d.May s) ∨ AtLeast n (d.Must s)

variable {d n} {c : K → M} {s : S}

theorem not_outcome_of_fails (h : d.Fails) (hc : d.Allowed c) : ¬ d.Outcome n c s := by
  obtain ⟨k, hk, hfails⟩ := h
  exact fun hout => hfails (c k) (hc k hk) (hout.1 k hk)

theorem not_outcome_of_harmless (h : d.Harmless n) (hc : d.Allowed c) : ¬ d.Outcome n c s := by
  intro hout
  cases hout.2 with
  | inl hmany =>
    apply (h s).2
    exact hmany.imp fun k hk => ⟨hk.1, c k, hc k hk.1, hout.1 k hk.1, hk.2⟩
  | inr hanyway => exact (h s).1 hanyway

/-- Where it is certain who is hit, a choice only tells it. -/
theorem outcome_iff_of_certain (htotal : d.Total) (hs : d.Certain n s) (hc : d.Allowed c) :
    d.Outcome n c s ↔ d.anyway s ∨ AtLeast n (d.Must s) := by
  have hreturns : ∀ k, d.decided k → d.returns k (c k) := fun k hk => htotal k (c k) hk (hc k hk)
  constructor
  · intro hout
    cases hout.2 with
    | inr hanyway => exact .inl hanyway
    | inl hmany =>
      have hmay : AtLeast n (d.May s) := hmany.imp fun k hk => ⟨hk.1, c k, hc k hk.1, hreturns k hk.1, hk.2⟩
      exact hs.imp_right fun h => h.resolve_left (not_not.2 hmay)
  · intro h
    refine ⟨hreturns, ?_⟩
    cases h with
    | inl hanyway => exact .inr hanyway
    | inr hmust => exact .inl (hmust.imp fun k hk => ⟨hk.1, hk.2 (c k) (hc k hk.1)⟩)

/-- A choice that does not fail, and speaks against the subject where it can. -/
theorem exists_worst (hfails : ¬ d.Fails) (s : S) [Nonempty M] :
    ∃ c, d.Allowed c ∧ (∀ k, d.decided k → d.returns k (c k)) ∧ ∀ k, d.May s k → d.against k (c k) s := by
  have hone : ∀ k, ∃ m, d.decided k → d.leads k m ∧ d.returns k m ∧ (d.May s k → d.against k m s) := by
    intro k
    by_cases hmay : d.May s k
    · obtain ⟨-, m, hm⟩ := hmay
      exact ⟨m, fun _ => ⟨hm.1, hm.2.1, fun _ => hm.2.2⟩⟩
    · by_cases hk : d.decided k
      · have hsome : ∃ m, d.leads k m ∧ d.returns k m := by
          by_contra hnone
          exact hfails ⟨k, hk, fun m hm hr => hnone ⟨m, hm, hr⟩⟩
        obtain ⟨m, hm, hr⟩ := hsome
        exact ⟨m, fun _ => ⟨hm, hr, fun h => absurd h hmay⟩⟩
      · exact ⟨Classical.arbitrary M, fun h => absurd h hk⟩
  choose c hc using hone
  exact ⟨c, fun k hk => (hc k hk).1, fun k hk => (hc k hk).2.1, fun k hmay => (hc k hmay.1).2.2 hmay⟩

/-- A choice that speaks against the subject only where it must. -/
theorem exists_mildest (hleads : ∀ k, d.decided k → ∃ m, d.leads k m) (s : S) [Nonempty M] :
    ∃ c, d.Allowed c ∧ ∀ k, d.decided k → d.against k (c k) s → d.Must s k := by
  have hone : ∀ k, ∃ m, d.decided k → d.leads k m ∧ (d.against k m s → d.Must s k) := by
    intro k
    by_cases hk : d.decided k
    · by_cases hmust : d.Must s k
      · obtain ⟨m, hm⟩ := hleads k hk
        exact ⟨m, fun _ => ⟨hm, fun _ => hmust⟩⟩
      · have hsome : ∃ m, d.leads k m ∧ ¬ d.against k m s := by
          by_contra hnone
          exact hmust ⟨hk, fun m hm => by_contra fun hnot => hnone ⟨m, hm, hnot⟩⟩
        obtain ⟨m, hm, hnot⟩ := hsome
        exact ⟨m, fun _ => ⟨hm, fun h => absurd h hnot⟩⟩
    · exact ⟨Classical.arbitrary M, fun h => absurd h hk⟩
  choose c hc using hone
  exact ⟨c, fun k hk => (hc k hk).1, fun k hk => (hc k hk).2⟩

/-- A choice with a candidate that fails, where there is one. -/
theorem exists_failing (hleads : ∀ k, d.decided k → ∃ m, d.leads k m) (htotal : ¬ d.Total) [Nonempty M] :
    ∃ c, d.Allowed c ∧ ∃ k, d.decided k ∧ ¬ d.returns k (c k) := by
  classical
  simp only [Total, not_forall] at htotal
  obtain ⟨k, m, hk, hm, hnot⟩ := htotal
  have hone : ∀ j, ∃ m, d.decided j → d.leads j m := by
    intro j
    by_cases hj : d.decided j
    · obtain ⟨m, hm⟩ := hleads j hj
      exact ⟨m, fun _ => hm⟩
    · exact ⟨Classical.arbitrary M, fun h => absurd h hj⟩
  choose c hc using hone
  refine ⟨Function.update c k m, fun j hj => ?_, k, hk, by rwa [Function.update_self]⟩
  by_cases hjk : j = k
  · subst hjk
    rwa [Function.update_self]
  · rw [Function.update_of_ne hjk]
    exact hc j hj

/-- The choices do not matter exactly where some item fails whatever is chosen, or nobody can be hit, or no candidate
fails and it is certain of everyone. -/
theorem outcomes_agree_iff (hleads : ∀ k, d.decided k → ∃ m, d.leads k m) [Nonempty M] :
    (∀ c e, d.Allowed c → d.Allowed e → ∀ s, d.Outcome n c s → d.Outcome n e s) ↔
      d.Fails ∨ d.Harmless n ∨ d.Total ∧ ∀ s, d.Certain n s := by
  constructor
  · intro hagree
    by_cases hfails : d.Fails
    · exact .inl hfails
    refine .inr ?_
    by_cases htotal : d.Total
    · refine .inr ⟨htotal, fun s => ?_⟩
      by_contra huncertain
      rw [Certain, not_or, not_or, not_not] at huncertain
      obtain ⟨hanyway, hmay, hmust⟩ := huncertain
      obtain ⟨worst, hworst, hreturns, hagainst⟩ := exists_worst hfails s
      obtain ⟨mildest, hmildest, honly⟩ := exists_mildest hleads s
      have hhit : d.Outcome n worst s := ⟨hreturns, .inl (hmay.imp fun k hk => ⟨hk.1, hagainst k hk⟩)⟩
      cases (hagree worst mildest hworst hmildest s hhit).2 with
      | inl hmany => exact hmust (hmany.imp fun k hk => honly k hk.1 hk.2)
      | inr h => exact hanyway h
    · -- one choice fails, so no choice may hit anyone
      refine .inl fun s => ?_
      obtain ⟨failing, hfailing, k, hk, hnot⟩ := exists_failing hleads htotal
      obtain ⟨worst, hworst, hreturns, hagainst⟩ := exists_worst hfails s
      have hnobody : ¬ d.Outcome n worst s :=
        fun h => hnot ((hagree worst failing hworst hfailing s h).1 k hk)
      constructor
      · exact fun hanyway => hnobody ⟨hreturns, .inr hanyway⟩
      · exact fun hmay => hnobody ⟨hreturns, .inl (hmay.imp fun k hk => ⟨hk.1, hagainst k hk⟩)⟩
  · intro h c e hc he s hout
    cases h with
    | inl hfails => exact absurd hout (not_outcome_of_fails hfails hc)
    | inr h =>
      cases h with
      | inl hharmless => exact absurd hout (not_outcome_of_harmless hharmless hc)
      | inr h => exact (outcome_iff_of_certain h.1 (h.2 s) he).2 ((outcome_iff_of_certain h.1 (h.2 s) hc).1 hout)

end Choices

end Hledac.Lib
