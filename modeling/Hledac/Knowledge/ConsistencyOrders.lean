import Hledac.Knowledge.ConsistencyRetractions

/-!
# Retractions in every order

The order of a batch decides nothing but which of the leading sources of an entity is taken for the majority, and it
decides that on every entity by itself.
-/

namespace Hledac.Knowledge.ConsistencyVerifier

open Hledac.Lib Hledac.Py

variable {u : Re.CharClasses} {F F' : List FindingDict} {S S' : List ContradictionSignal} {e : String}
  {v v' : List FindingDict} {m s : SourceId}

/-! ### What does not depend on the order -/

theorem ofSource_perm (h : v'.Perm v) (s : SourceId) : (ofSource v' s).Perm (ofSource v s) := members_perm h s

theorem onEntity_perm (h : F'.Perm F) (e : String) : (onEntity F' e).Perm (onEntity F e) := members_perm h e

theorem reports_perm (h : v'.Perm v) : Reports v' s ↔ Reports v s := ne_nil_perm (ofSource_perm h s)

theorem decided_perm (h : v'.Perm v) : Decided v' ↔ Decided v := atLeast_congr fun _ => reports_perm h

theorem leads_perm (h : v'.Perm v) : Leads v' m ↔ Leads v m := by
  simp only [Leads, reports_perm h, (ofSource_perm h _).length_eq]

theorem returns_perm (h : v'.Perm v) (hS : S'.Perm S) : Returns S' e v' m ↔ Returns S e v m := by
  simp only [Returns, reports_perm h, checkEntityContradiction_perm (ofSource_perm h _) (ofSource_perm h _) hS]

theorem dissents_perm (h : v'.Perm v) (hS : S'.Perm S) : Dissents S' e v' m s ↔ Dissents S e v m s := by
  simp only [Dissents, reports_perm h, checkEntityContradiction_perm (ofSource_perm h _) (ofSource_perm h _) hS]

theorem claims_perm (h : F'.Perm F) (s : SourceId) : claims F' s = claims F s := (ofSource_perm h s).length_eq

theorem contradictions_perm (h : S'.Perm S) (s : SourceId) : contradictions u S' s = contradictions u S s :=
  (members_perm h s).length_eq

theorem overRatio_perm (hF : F'.Perm F) (hS : S'.Perm S) : OverRatio u F' S' s ↔ OverRatio u F S s := by
  rw [OverRatio, OverRatio, claims_perm hF, contradictions_perm hS]

theorem WithinCaps.perm (h : WithinCaps F S) (hF : F'.Perm F) (hS : S'.Perm S) : WithinCaps F' S' := by
  rwa [WithinCaps, hF.length_eq, hS.length_eq]

/-! ### The majorities as choices -/

/-- The entities that are voted on, the sources that may be taken for the majority, and what becomes of the others. -/
def choices (u : Re.CharClasses) (F : List FindingDict) (S : List ContradictionSignal) :
    Choices String SourceId SourceId where
  decided e := Decided (onEntity F e)
  leads e m := Leads (onEntity F e) m
  returns e m := Returns S e (onEntity F e) m
  against e m s := Dissents S e (onEntity F e) m s
  anyway s := OverRatio u F S s

theorem choices_perm (hF : F'.Perm F) (hS : S'.Perm S) : choices u F' S' = choices u F S := by
  ext e
  · exact decided_perm (onEntity_perm hF e)
  · exact leads_perm (onEntity_perm hF e)
  · exact returns_perm (onEntity_perm hF e) hS
  · exact dissents_perm (onEntity_perm hF e) hS
  · exact overRatio_perm hF hS

/-- The majorities that an order of the findings makes. -/
def majorities (F : List FindingDict) (e : String) : SourceId := majorityOf (onEntity F e)

theorem allowed_majorities : (choices u F S).Allowed (majorities F) := fun _ => leads_majorityOf

theorem exists_leads (e : String) (h : (choices u F S).decided e) : ∃ m, (choices u F S).leads e m :=
  ⟨_, leads_majorityOf h⟩

theorem mem_retracted_iff_outcome (h : WithinCaps F S) : s ∈ retracted u F S ↔
    (F ≠ [] ∧ S ≠ []) ∧ (choices u F S).Outcome triSourceMinVotes (majorities F) s := by
  rw [mem_retracted_iff h, ← and_assoc, and_assoc]
  rfl

theorem exists_order (c : String → SourceId) (h : (choices u F S).Allowed c) :
    ∃ F', F'.Perm F ∧ ∀ e, Decided (onEntity F e) → majorities F' e = c e := by
  have hone : ∀ e, ∃ order : List FindingDict, order.Perm (onEntity F e) ∧
      (Decided (onEntity F e) → majorityOf order = c e) := by
    intro e
    by_cases hdecided : Decided (onEntity F e)
    · -- a finding of the source chosen comes first
      have hleads : Leads (onEntity F e) (c e) := h e hdecided
      obtain ⟨f, hf, hsource⟩ := exists_mem_of_reports hleads.1
      have hperm : (f :: (onEntity F e).erase f).Perm (onEntity F e) := (List.perm_cons_erase hf).symm
      refine ⟨_, hperm, fun _ => ?_⟩
      rw [← hsource] at hleads ⊢
      exact majorityOf_cons ((leads_perm hperm).2 hleads)
    · exact ⟨_, List.Perm.refl _, fun hnot => absurd hnot hdecided⟩
  choose order hperm horder using hone
  obtain ⟨F', hF, hmembers⟩ := exists_perm_of_members F order hperm
  refine ⟨F', hF, ?_⟩
  intro e he
  rw [majorities, onEntity, hmembers e]
  exact horder e he

/-! ### Real dissenters -/

/-- The source has a finding with the value. -/
def Says (v : List FindingDict) (s : SourceId) (x : String) : Prop := ∃ f ∈ ofSource v s, f.valueOf = .ok x

/-- On an entity that enough sources report, two others agree on a value that no finding of the source has. -/
def Outvoted (F : List FindingDict) (s : SourceId) (e : String) : Prop :=
  Decided (onEntity F e) ∧ Reports (onEntity F e) s ∧
    ∃ x a b, a ≠ b ∧ a ≠ s ∧ b ≠ s ∧ Says (onEntity F e) a x ∧ Says (onEntity F e) b x ∧ ¬ Says (onEntity F e) s x

/-- The batch retracts each source once, by vote only one that is outvoted on three entities, and by ratio only one with
three findings and no more contradictions than findings. -/
structure OnlyDissenters (u : Re.CharClasses) (F : List FindingDict) (S : List ContradictionSignal) : Prop where
  once : (retracted u F S).Nodup
  vote : ∀ r ∈ checkBatch u F S, r.reason = "tri_source_voting" → AtLeast triSourceMinVotes (Outvoted F r.sourceId)
  ratio : ∀ r ∈ checkBatch u F S, r.reason = "ratio_threshold" →
    3 ≤ claims F r.sourceId ∧ ratioThreshold < (contradictions u S r.sourceId : ℚ) / claims F r.sourceId ∧
      (contradictions u S r.sourceId : ℚ) / claims F r.sourceId ≤ 1

/-- In whatever order they come, the findings and the signals retract real dissenters only, and the same ones. -/
def RetractsDissenters (u : Re.CharClasses) (F : List FindingDict) (S : List ContradictionSignal) : Prop :=
  ∀ F' S', F'.Perm F → S'.Perm S →
    OnlyDissenters u F' S' ∧ ∀ s, s ∈ retracted u F' S' ↔ s ∈ retracted u F S

/-- The batch is empty, or an entity raises something whatever majority is taken, or nobody can be retracted; or no
majority raises anything, of every source it is certain whether it is retracted, whoever may dissent three times is
outvoted on three entities, and whoever is over the ratio dissents three times or has a finding for every
contradiction. -/
def Settled (u : Re.CharClasses) (F : List FindingDict) (S : List ContradictionSignal) : Prop :=
  F = [] ∨ S = [] ∨ (choices u F S).Fails ∨ (choices u F S).Harmless triSourceMinVotes ∨
    ((choices u F S).Total ∧ (∀ s, (choices u F S).Certain triSourceMinVotes s) ∧
      (∀ s, AtLeast triSourceMinVotes ((choices u F S).May s) → AtLeast triSourceMinVotes (Outvoted F s)) ∧
      ∀ s, OverRatio u F S s →
        AtLeast triSourceMinVotes ((choices u F S).Must s) ∨ contradictions u S s ≤ claims F s)

theorem outvoted_perm (h : F'.Perm F) : Outvoted F' s e ↔ Outvoted F s e := by
  have hv := onEntity_perm h e
  simp only [Outvoted, decided_perm hv, reports_perm hv, Says, (ofSource_perm hv _).mem_iff]

theorem checkBatch_eq_nil (h : WithinCaps F S)
    (hnobody : ∀ s, ¬ (choices u F S).Outcome triSourceMinVotes (majorities F) s) : checkBatch u F S = [] := by
  rw [← List.map_eq_nil_iff (f := RetractionDecision.sourceId), List.eq_nil_iff_forall_not_mem]
  intro s hs
  exact hnobody s ((mem_retracted_iff_outcome h).1 hs).2

theorem onlyDissenters_of_nil (h : checkBatch u F S = []) : OnlyDissenters u F S where
  once := by
    rw [retracted, h]
    exact List.nodup_nil
  vote := by
    rw [h]
    simp
  ratio := by
    rw [h]
    simp

theorem retractsDissenters_of_nobody (h : ∀ F' S', F'.Perm F → S'.Perm S → checkBatch u F' S' = []) :
    RetractsDissenters u F S := by
  intro F' S' hF hS
  refine ⟨onlyDissenters_of_nil (h F' S' hF hS), ?_⟩
  intro s
  rw [retracted, retracted, h F' S' hF hS, h F S (List.Perm.refl F) (List.Perm.refl S)]

theorem checkBatch_of_empty (h : F = [] ∨ S = []) : checkBatch u F S = [] := by
  rw [checkBatch, if_pos]
  exact h.imp (fun h => by rw [h]; rfl) fun h => by rw [h]; rfl

theorem may_of_dissentsOn (hall : AllReturn F S) (h : DissentsOn F S s e) : (choices u F S).May s e :=
  ⟨h.1, majorities F e, leads_majorityOf h.1, hall e h.1, h.2⟩

theorem dissentsOn_of_must (h : (choices u F S).Must s e) : DissentsOn F S s e :=
  ⟨h.1, h.2 (majorities F e) (leads_majorityOf h.1)⟩

theorem onlyDissenters_of_certain (h : WithinCaps F S)
    (hvote : ∀ s, AtLeast triSourceMinVotes ((choices u F S).May s) → AtLeast triSourceMinVotes (Outvoted F s))
    (hratio : ∀ s, OverRatio u F S s →
      AtLeast triSourceMinVotes ((choices u F S).Must s) ∨ contradictions u S s ≤ claims F s) :
    OnlyDissenters u F S where
  once := nodup_retracted h
  vote := by
    intro r hr hreason
    obtain ⟨hbatch, hmany⟩ := (exists_tri_iff h).1 ⟨r, hr, hreason, rfl⟩
    exact hvote _ (hmany.imp fun e he => may_of_dissentsOn hbatch.2.2 he)
  ratio := by
    intro r hr hreason
    obtain ⟨-, hfew, hover⟩ := (exists_ratio_iff h).1 ⟨r, hr, hreason, rfl⟩
    have hle : contradictions u S r.sourceId ≤ claims F r.sourceId :=
      (hratio _ hover).resolve_left fun hmust => hfew (hmust.imp fun e he => dissentsOn_of_must he)
    have hthree : 3 ≤ claims F r.sourceId := le_trans hover.1 hle
    have hpos : 0 < claims F r.sourceId := by omega
    refine ⟨hthree, hover.2.resolve_left hpos.ne', ?_⟩
    rw [div_le_one (Nat.cast_pos.2 hpos)]
    exact Nat.cast_le.2 hle

theorem retractsDissenters_of_settled (h : WithinCaps F S) (hsettled : Settled u F S) : RetractsDissenters u F S := by
  obtain hF | hS | hfails | hharmless | ⟨htotal, hcertain, hvote, hratio⟩ := hsettled
  · apply retractsDissenters_of_nobody
    intro F' S' hF' _
    exact checkBatch_of_empty (.inl (hF ▸ hF').eq_nil)
  · apply retractsDissenters_of_nobody
    intro F' S' _ hS'
    exact checkBatch_of_empty (.inr (hS ▸ hS').eq_nil)
  · apply retractsDissenters_of_nobody
    intro F' S' hF' hS'
    apply checkBatch_eq_nil (h.perm hF' hS')
    intro s
    apply Choices.not_outcome_of_fails _ allowed_majorities
    rwa [choices_perm hF' hS']
  · apply retractsDissenters_of_nobody
    intro F' S' hF' hS'
    apply checkBatch_eq_nil (h.perm hF' hS')
    intro s
    apply Choices.not_outcome_of_harmless _ allowed_majorities
    rwa [choices_perm hF' hS']
  · intro F' S' hF' hS'
    have hcaps := h.perm hF' hS'
    constructor
    · apply onlyDissenters_of_certain hcaps
      · intro s hmay
        rw [choices_perm hF' hS'] at hmay
        exact (hvote s hmay).imp fun e he => (outvoted_perm hF').2 he
      · intro s hover
        rw [choices_perm hF' hS', contradictions_perm hS', claims_perm hF']
        exact hratio s ((overRatio_perm hF' hS').1 hover)
    · intro s
      rw [mem_retracted_iff_outcome hcaps, mem_retracted_iff_outcome h, choices_perm hF' hS', ne_nil_perm hF',
        ne_nil_perm hS']
      apply and_congr_right
      intro _
      have hallowed : (choices u F S).Allowed (majorities F') := by
        rw [← choices_perm hF' hS']
        exact allowed_majorities
      rw [Choices.outcome_iff_of_certain htotal (hcertain s) hallowed,
        Choices.outcome_iff_of_certain htotal (hcertain s) allowed_majorities]

section Order

variable {c : String → SourceId}

/-- The findings are in an order that makes the majorities of a choice. -/
structure Makes (F F' : List FindingDict) (c : String → SourceId) : Prop where
  perm : F'.Perm F
  majorities : ∀ e, Decided (onEntity F e) → majorities F' e = c e

theorem Makes.dissentsOn_iff (h : Makes F F' c) :
    DissentsOn F' S s e ↔ (choices u F S).decided e ∧ (choices u F S).against e (c e) s := by
  have hperm := onEntity_perm h.perm e
  rw [DissentsOn, decided_perm hperm, dissents_perm hperm (List.Perm.refl S)]
  apply and_congr_right
  intro hdecided
  show Dissents S e (onEntity F e) (ConsistencyVerifier.majorities F' e) s ↔ _
  rw [h.majorities e hdecided]
  rfl

theorem Makes.allReturn_iff (h : Makes F F' c) :
    AllReturn F' S ↔ ∀ e, (choices u F S).decided e → (choices u F S).returns e (c e) := by
  apply forall_congr'
  intro e
  have hperm := onEntity_perm h.perm e
  rw [decided_perm hperm, returns_perm hperm (List.Perm.refl S)]
  apply imp_congr_right
  intro hdecided
  show Returns S e (onEntity F e) (ConsistencyVerifier.majorities F' e) ↔ _
  rw [h.majorities e hdecided]
  rfl

theorem Makes.mem_retracted_iff (h : Makes F F' c) (hcaps : WithinCaps F S) (hF : F ≠ []) (hS : S ≠ []) :
    s ∈ retracted u F' S ↔ (choices u F S).Outcome triSourceMinVotes c s := by
  have hF' : F' ≠ [] := (ne_nil_perm h.perm).2 hF
  rw [ConsistencyVerifier.mem_retracted_iff (hcaps.perm h.perm (List.Perm.refl S)), and_iff_right hF',
    and_iff_right hS, h.allReturn_iff (u := u), atLeast_congr fun e => h.dissentsOn_iff (u := u),
    overRatio_perm h.perm (List.Perm.refl S)]
  rfl

end Order

theorem settled_of_retractsDissenters (h : WithinCaps F S) (hretracts : RetractsDissenters u F S) :
    Settled u F S := by
  by_cases hF : F = []
  · exact .inl hF
  by_cases hS : S = []
  · exact .inr (.inl hS)
  by_cases hfails : (choices u F S).Fails
  · exact .inr (.inr (.inl hfails))
  have hmakes : ∀ c, (choices u F S).Allowed c → ∃ F', Makes F F' c := by
    intro c hc
    obtain ⟨F', hperm, hmajorities⟩ := exists_order c hc
    exact ⟨F', hperm, hmajorities⟩
  have hsame : ∀ {c F'}, Makes F F' c → ∀ s,
      (choices u F S).Outcome triSourceMinVotes c s ↔ s ∈ retracted u F S := by
    intro c F' hF' s
    rw [← hF'.mem_retracted_iff h hF hS]
    exact (hretracts F' S hF'.perm (List.Perm.refl S)).2 s
  have hagree : ∀ c d, (choices u F S).Allowed c → (choices u F S).Allowed d → ∀ s,
      (choices u F S).Outcome triSourceMinVotes c s → (choices u F S).Outcome triSourceMinVotes d s := by
    intro c d hc hd s hout
    obtain ⟨F', hF'⟩ := hmakes c hc
    obtain ⟨F'', hF''⟩ := hmakes d hd
    exact (hsame hF'' s).2 ((hsame hF' s).1 hout)
  obtain hfails' | hharmless | ⟨htotal, hcertain⟩ := (Choices.outcomes_agree_iff exists_leads).1 hagree
  · exact absurd hfails' hfails
  · exact .inr (.inr (.inr (.inl hharmless)))
  refine .inr (.inr (.inr (.inr ⟨htotal, hcertain, ?_, ?_⟩)))
  · intro s hmay
    obtain ⟨c, hc, hreturns, hagainst⟩ := Choices.exists_worst hfails s
    obtain ⟨F', hF'⟩ := hmakes c hc
    have hbatch : F' ≠ [] ∧ S ≠ [] ∧ AllReturn F' S :=
      ⟨(ne_nil_perm hF'.perm).2 hF, hS, hF'.allReturn_iff.2 hreturns⟩
    have hmany : AtLeast triSourceMinVotes (DissentsOn F' S s) :=
      hmay.imp fun e he => hF'.dissentsOn_iff.2 ⟨he.1, hagainst e he⟩
    have hcaps := h.perm hF'.perm (List.Perm.refl S)
    obtain ⟨r, hr, hreason, rfl⟩ := (exists_tri_iff (u := u) hcaps).2 ⟨hbatch, hmany⟩
    have honly := (hretracts F' S hF'.perm (List.Perm.refl S)).1
    exact (honly.vote r hr hreason).imp fun e he => (outvoted_perm hF'.perm).1 he
  · intro s hover
    by_cases hmust : AtLeast triSourceMinVotes ((choices u F S).Must s)
    · exact .inl hmust
    obtain ⟨c, hc, honly⟩ := Choices.exists_mildest exists_leads s
    obtain ⟨F', hF'⟩ := hmakes c hc
    have hbatch : F' ≠ [] ∧ S ≠ [] ∧ AllReturn F' S :=
      ⟨(ne_nil_perm hF'.perm).2 hF, hS, hF'.allReturn_iff.2 fun e he => htotal e (c e) he (hc e he)⟩
    have hfew : ¬ AtLeast triSourceMinVotes (DissentsOn F' S s) := by
      intro hmany
      apply hmust
      apply hmany.imp
      intro e he
      obtain ⟨hdecided, hagainst⟩ := (hF'.dissentsOn_iff (u := u)).1 he
      exact honly e hdecided hagainst
    have hover' := (overRatio_perm hF'.perm (List.Perm.refl S)).2 hover
    have hcaps := h.perm hF'.perm (List.Perm.refl S)
    obtain ⟨r, hr, hreason, rfl⟩ := (exists_ratio_iff hcaps).2 ⟨hbatch, hfew, hover'⟩
    obtain ⟨hthree, -, hle⟩ := (hretracts F' S hF'.perm (List.Perm.refl S)).1.ratio r hr hreason
    rw [claims_perm hF'.perm] at hthree hle
    have hpos : 0 < claims F r.sourceId := by omega
    rw [div_le_one (Nat.cast_pos.2 hpos)] at hle
    exact .inr (Nat.cast_le.1 hle)

/-- Within the caps a batch retracts real dissenters only, and the same ones in every order, exactly where it is
settled. -/
theorem retractsDissenters_iff (u : Re.CharClasses) (F : List FindingDict) (S : List ContradictionSignal)
    (h : WithinCaps F S) : RetractsDissenters u F S ↔ Settled u F S :=
  ⟨settled_of_retractsDissenters h, retractsDissenters_of_settled h⟩

/-- A batch of one finding and one signal retracts nobody. -/
theorem retractsDissenters_lone :
    RetractsDissenters Re.asciiClasses [{ entityValue := some "e1", value := some "v", sourceType := some "a" }]
      [{ engine := "insight", claimA := "source: a" }] := by
  rw [retractsDissenters_iff _ _ _ ⟨by decide, by decide⟩]
  refine .inr (.inr (.inr (.inl fun s => ⟨?_, ?_⟩)))
  · intro hover
    have hle : contradictions Re.asciiClasses [{ engine := "insight", claimA := "source: a" }] s ≤ 1 :=
      List.length_filter_le ..
    exact absurd (le_trans hover.1 hle) (by decide)
  · intro hmany
    obtain ⟨e, he⟩ := hmany.exists (by decide)
    exact not_decided_of_length_lt (by decide) e he.1

theorem not_outvoted_of_unanimous {x : String} (h : ∀ f ∈ F, f.valueOf = .ok x) : ¬ Outvoted F s e := by
  intro hout
  obtain ⟨-, hreports, y, a, b, -, -, -, ⟨f, hf, hy⟩, -, hnot⟩ := hout
  have hmem : ∀ {t f}, f ∈ ofSource (onEntity F e) t → f ∈ F := fun hf =>
    (mem_members.1 (mem_members.1 hf).1).1
  obtain rfl : x = y := Except.ok.inj ((h f (hmem hf)).symm.trans hy)
  obtain ⟨g, hg⟩ := List.exists_mem_of_ne_nil _ hreports
  exact hnot ⟨g, hg, h g (hmem hg)⟩

/-- Three sources that agree on three entities. -/
def unanimous : List FindingDict :=
  ["e1", "e2", "e3"].flatMap fun e => ["a", "b", "c"].map fun s =>
    { entityValue := some e, value := some "v", sourceType := some s }

/-- A signal on each of the entities, which names no source. -/
def doubts : List ContradictionSignal :=
  ["e1", "e2", "e3"].map fun e => { engine := "dempster_shafer", entityValue := e, severity := 9 / 10 }

/-- Sources that agree with everyone are retracted by vote. -/
theorem not_retractsDissenters : ¬ RetractsDissenters Re.asciiClasses unanimous doubts := by
  intro h
  have hretracted : ∃ r ∈ checkBatch Re.asciiClasses unanimous doubts,
      r.reason = "tri_source_voting" ∧ r.sourceId = some "b" := by decide +kernel
  obtain ⟨r, hr, hreason, -⟩ := hretracted
  have honly := (h unanimous doubts (List.Perm.refl _) (List.Perm.refl _)).1
  obtain ⟨e, he⟩ := (honly.vote r hr hreason).exists (by decide)
  have hvalues : ∀ f ∈ unanimous, f.valueOf = .ok "v" := by decide
  exact not_outvoted_of_unanimous hvalues he

end Hledac.Knowledge.ConsistencyVerifier
