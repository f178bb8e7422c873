import Hledac.Lib.Words
import Hledac.Py.Parse

/-!
# Python's `str.lower`

Every character is lowered by itself through the tables of the Unicode database, except the
capital sigma, whose lower form depends on the letters around it. The tables are a parameter;
what the algorithm relies on is part of it.
-/

namespace Hledac.Py

open Hledac.Lib.Words

/-- Unicode category `Cc`. -/
def isControl (ch : Char) : Bool := ch.toNat < 32 || (127 ≤ ch.toNat && ch.toNat ≤ 159)

/-- Whitespace and control characters, which have no case. -/
def isMark (ch : Char) : Bool := isSpace ch || isControl ch

/-- What `str.lower` reads of the Unicode database. -/
structure CaseTables where
  /-- The full lower-case mapping of one character. -/
  lowerFull : Char → List Char
  /-- Property `Cased`. -/
  cased : Char → Bool
  /-- Property `Case_Ignorable`. -/
  caseIgnorable : Char → Bool
  lowerFull_ne : ∀ ch, lowerFull ch ≠ []
  lowerFull_mark : ∀ ch, isMark ch = true → lowerFull ch = [ch]
  mark_lowerFull : ∀ ch, isMark ch = false → ∀ d ∈ lowerFull ch, isMark d = false
  lowerFull_lowered : ∀ ch, ∀ d ∈ lowerFull ch, lowerFull d = [d] ∧ d ≠ 'Σ'
  lowerFull_final : lowerFull 'ς' = ['ς']
  cased_mark : ∀ ch, isMark ch = true → cased ch = false ∧ caseIgnorable ch = false
  lowerFull_sigma : lowerFull 'Σ' = ['σ']

namespace CaseTables

variable (t : CaseTables)

/-- The next character that is not case-ignorable has a case. -/
def nextCased (cs : List Char) : Bool := (cs.dropWhile t.caseIgnorable).head?.any t.cased

/-- `handle_capital_sigma`: the sigma ends a word. The characters before it are given from the
nearest on. -/
def finalSigma (before after : List Char) : Bool := t.nextCased before && !t.nextCased after

/-- The lower form of one character of a text. -/
def lowerChar (before : List Char) (ch : Char) (after : List Char) : List Char :=
  if ch = 'Σ' then [if t.finalSigma before after then 'ς' else 'σ'] else t.lowerFull ch

/-- The lower form of a part of a text. -/
def lowerIn (before : List Char) : List Char → List Char → List Char
  | [], _ => []
  | ch :: cs, after => t.lowerChar before ch (cs ++ after) ++ lowerIn (ch :: before) cs after

/-- `str.lower()`. -/
def lower (cs : List Char) : List Char := t.lowerIn [] cs []

variable {t}

/-! ### Single characters -/

theorem ne_sigma_of_isMark {ch : Char} (h : isMark ch = true) : ch ≠ 'Σ' := by
  rintro rfl
  cases h

@[simp] theorem lowerChar_mark {before after : List Char} {ch : Char} (h : isMark ch = true) :
    t.lowerChar before ch after = [ch] := by
  rw [lowerChar, if_neg (ne_sigma_of_isMark h), t.lowerFull_mark ch h]

theorem lowerChar_ne (before : List Char) (ch : Char) (after : List Char) :
    t.lowerChar before ch after ≠ [] := by
  rw [lowerChar]
  split
  · exact List.cons_ne_nil _ _
  · exact t.lowerFull_ne ch

theorem isMark_lowerChar {before after : List Char} {ch d : Char}
    (h : d ∈ t.lowerChar before ch after) : isMark d = isMark ch := by
  cases hch : isMark ch with
  | true =>
    rw [lowerChar_mark hch, List.mem_singleton] at h
    rw [h, hch]
  | false =>
    rw [lowerChar] at h
    split at h
    · rw [List.mem_singleton] at h
      rw [h]
      split <;> rfl
    · exact t.mark_lowerFull ch hch d h

theorem lowered_lowerChar {before after : List Char} {ch d : Char}
    (h : d ∈ t.lowerChar before ch after) : t.lowerFull d = [d] ∧ d ≠ 'Σ' := by
  rw [lowerChar] at h
  split at h
  · rw [List.mem_singleton] at h
    rw [h]
    split
    · exact ⟨t.lowerFull_final, by decide⟩
    · apply t.lowerFull_lowered 'Σ'
      simp [t.lowerFull_sigma]
  · exact t.lowerFull_lowered ch d h

/-! ### Whole texts -/

theorem lowerIn_append (before xs ys after : List Char) :
    t.lowerIn before (xs ++ ys) after =
      t.lowerIn before xs (ys ++ after) ++ t.lowerIn (xs.reverse ++ before) ys after := by
  induction xs generalizing before with
  | nil => rfl
  | cons x xs ih =>
    rw [List.cons_append, lowerIn, lowerIn, ih, List.append_assoc, List.append_assoc,
      List.reverse_cons, List.append_assoc, List.singleton_append]

theorem of_mem_lowerIn {before cs after : List Char} {d : Char}
    (h : d ∈ t.lowerIn before cs after) :
    ∃ ch ∈ cs, ∃ b a, d ∈ t.lowerChar b ch a := by
  induction cs generalizing before with
  | nil => cases h
  | cons ch cs ih =>
    rw [lowerIn, List.mem_append] at h
    rcases h with hd | hd
    · exact ⟨ch, List.mem_cons_self, _, _, hd⟩
    · obtain ⟨c, hc, b, a, hmem⟩ := ih hd
      exact ⟨c, List.mem_cons_of_mem _ hc, b, a, hmem⟩

theorem mem_lowerIn {cs : List Char} {ch : Char} (h : ch ∈ cs) (before after : List Char) :
    ∃ b a, ∀ d ∈ t.lowerChar b ch a, d ∈ t.lowerIn before cs after := by
  induction cs generalizing before with
  | nil => cases h
  | cons c cs ih =>
    rcases List.mem_cons.1 h with rfl | hmem
    · refine ⟨before, cs ++ after, fun d hd => ?_⟩
      rw [lowerIn]
      exact List.mem_append_left _ hd
    · obtain ⟨b, a, hsub⟩ := ih hmem (c :: before)
      refine ⟨b, a, fun d hd => ?_⟩
      rw [lowerIn]
      exact List.mem_append_right _ (hsub d hd)

theorem lowered_of_mem_lower {cs : List Char} {d : Char} (h : d ∈ t.lower cs) :
    t.lowerFull d = [d] ∧ d ≠ 'Σ' := by
  obtain ⟨ch, -, b, a, hd⟩ := of_mem_lowerIn h
  exact lowered_lowerChar hd

theorem lowerIn_of_lowered {before cs after : List Char}
    (h : ∀ d ∈ cs, t.lowerFull d = [d] ∧ d ≠ 'Σ') : t.lowerIn before cs after = cs := by
  induction cs generalizing before with
  | nil => rfl
  | cons ch cs ih =>
    obtain ⟨hfull, hne⟩ := h ch List.mem_cons_self
    rw [lowerIn, ih fun d hd => h d (List.mem_cons_of_mem _ hd), lowerChar, if_neg hne, hfull]
    rfl

theorem lower_of_lowered {cs : List Char} (h : ∀ d ∈ cs, t.lowerFull d = [d] ∧ d ≠ 'Σ') :
    t.lower cs = cs :=
  lowerIn_of_lowered h

theorem mem_lower_of_isMark {cs : List Char} {ch : Char} (h : isMark ch = true) :
    ch ∈ t.lower cs ↔ ch ∈ cs := by
  constructor
  · intro hmem
    obtain ⟨c, hc, b, a, hd⟩ := of_mem_lowerIn hmem
    have hmark : isMark c = true := (isMark_lowerChar hd).symm.trans h
    rw [lowerChar_mark hmark, List.mem_singleton] at hd
    rw [hd]
    exact hc
  · intro hmem
    obtain ⟨b, a, hsub⟩ := mem_lowerIn (t := t) hmem [] []
    apply hsub
    rw [lowerChar_mark h]
    exact List.mem_singleton_self ch

theorem forall_lower_iff {q : Char → Bool} (hq : ∀ ch, q ch = true → isMark ch = true)
    (cs : List Char) : (∀ d ∈ t.lower cs, q d = true) ↔ ∀ ch ∈ cs, q ch = true := by
  constructor
  · intro h ch hch
    obtain ⟨b, a, hsub⟩ := mem_lowerIn (t := t) hch [] []
    obtain ⟨d, hd⟩ := List.exists_mem_of_ne_nil _ (lowerChar_ne (t := t) b ch a)
    have hqd : q d = true := h d (hsub d hd)
    have hmark : isMark ch = true := (isMark_lowerChar hd).symm.trans (hq d hqd)
    rw [lowerChar_mark hmark, List.mem_singleton] at hd
    rw [← hd]
    exact hqd
  · intro h d hd
    obtain ⟨c, hc, b, a, hmem⟩ := of_mem_lowerIn hd
    have hqc : q c = true := h c hc
    rw [lowerChar_mark (hq c hqc), List.mem_singleton] at hmem
    rw [hmem]
    exact hqc

/-! ### Marks end the context of a sigma -/

theorem nextCased_append_mark {w : Char} (hw : isMark w = true) (xs ys : List Char) :
    t.nextCased (xs ++ w :: ys) = t.nextCased xs := by
  obtain ⟨hcased, hign⟩ := t.cased_mark w hw
  induction xs with
  | nil => simp [nextCased, hign, hcased]
  | cons x xs ih =>
    cases hx : t.caseIgnorable x with
    | true =>
      have hskip : ∀ zs, t.nextCased (x :: zs) = t.nextCased zs := by
        intro zs
        rw [nextCased, List.dropWhile_cons_of_pos hx, nextCased]
      rw [List.cons_append, hskip, hskip, ih]
    | false => simp [nextCased, hx]

theorem lowerIn_before_mark {w : Char} (hw : isMark w = true) (xs ys cs after : List Char) :
    t.lowerIn (xs ++ w :: ys) cs after = t.lowerIn xs cs after := by
  induction cs generalizing xs with
  | nil => rfl
  | cons ch cs ih =>
    rw [lowerIn, lowerIn, ← List.cons_append, ih, lowerChar, lowerChar, finalSigma, finalSigma,
      nextCased_append_mark hw]

theorem lowerIn_after_mark {w : Char} (hw : isMark w = true) (before cs xs ys : List Char) :
    t.lowerIn before cs (xs ++ w :: ys) = t.lowerIn before cs xs := by
  induction cs generalizing before with
  | nil => rfl
  | cons ch cs ih =>
    rw [lowerIn, lowerIn, ih, lowerChar, lowerChar, finalSigma, finalSigma, ← List.append_assoc,
      nextCased_append_mark hw]

theorem lower_append_mark {w : Char} (hw : isMark w = true) (xs ys : List Char) :
    t.lower (xs ++ w :: ys) = t.lower xs ++ w :: t.lower ys := by
  have hback : t.lowerIn xs.reverse (w :: ys) [] = w :: t.lowerIn [] ys [] := by
    rw [lowerIn, lowerChar_mark hw, ← List.nil_append (w :: xs.reverse), lowerIn_before_mark hw]
    rfl
  have hfront : t.lowerIn [] xs (w :: ys) = t.lowerIn [] xs [] := lowerIn_after_mark hw [] xs [] ys
  rw [lower, lowerIn_append, List.append_nil, List.append_nil, hback, hfront]
  rfl

theorem isSpace_of_mem_lower {cs : List Char} (h : ∀ ch ∈ cs, isSpace ch = false) :
    ∀ d ∈ t.lower cs, isSpace d = false := by
  intro d hd
  by_contra hspace
  rw [Bool.not_eq_false] at hspace
  have hmark : isMark d = true := by simp [isMark, hspace]
  rw [h d ((mem_lower_of_isMark hmark).1 hd)] at hspace
  cases hspace

theorem countP_lower (cs : List Char) : (t.lower cs).countP isSpace = cs.countP isSpace := by
  have hpart : ∀ before after : List Char, (t.lowerIn before cs after).countP isSpace = cs.countP isSpace := by
    induction cs with
    | nil => exact fun _ _ => rfl
    | cons ch cs ih =>
      intro before after
      have hchar : (t.lowerChar before ch (cs ++ after)).countP isSpace = [ch].countP isSpace := by
        cases hspace : isSpace ch with
        | true => rw [lowerChar_mark (by simp [isMark, hspace])]
        | false =>
          rw [List.countP_singleton, hspace, List.countP_eq_zero.2]
          · rfl
          intro d hd hdspace
          have hmark : isMark d = true := by simp [isMark, hdspace]
          have hch : isMark ch = true := (isMark_lowerChar hd).symm.trans hmark
          rw [lowerChar_mark hch, List.mem_singleton] at hd
          rw [hd, hspace] at hdspace
          cases hdspace
      rw [lowerIn, List.countP_append, hchar, ih, ← List.countP_append, List.singleton_append]
  exact hpart [] []

theorem lower_eq_nil {cs : List Char} : t.lower cs = [] ↔ cs = [] := by
  cases cs with
  | nil => exact ⟨fun _ => rfl, fun _ => rfl⟩
  | cons ch cs => simp [lower, lowerIn, lowerChar_ne]

theorem words_lower (cs : List Char) :
    words isSpace (t.lower cs) = (words isSpace cs).map t.lower := by
  have hplain : ∀ xs : List Char, (∀ ch ∈ xs, isSpace ch = false) →
      words isSpace (t.lower xs) = (words isSpace xs).map t.lower := by
    intro xs hxs
    by_cases hne : xs = []
    · rw [hne]
      rfl
    · rw [words_plain hxs hne, words_plain (isSpace_of_mem_lower hxs) (mt lower_eq_nil.1 hne)]
      rfl
  induction cs using cutInduction (p := isSpace) with
  | plain s hs => exact hplain s hs
  | cut xs b ys hxs hb ih =>
    have hmark : isMark b = true := by simp [isMark, hb]
    rw [lower_append_mark hmark, words_append_cons hb, words_append_cons hb, List.map_append, ih,
      hplain xs hxs]

/-! ### ASCII and the sigmas -/

theorem isControl_toLower (ch : Char) : isControl ch.toLower = isControl ch := by
  rw [isControl, isControl, toNat_toLower]
  split
  · next hrange =>
    rw [Bool.eq_iff_iff]
    simp
    omega
  · rfl

theorem isMark_toLower (ch : Char) : isMark ch.toLower = isMark ch := by
  rw [isMark, isMark, isSpace_toLower, isControl_toLower]

theorem toNat_of_isMark {ch : Char} (h : isMark ch = true) :
    ch.toNat < 33 ∨ (127 ≤ ch.toNat ∧ ch.toNat ≤ 160) ∨ 5760 ≤ ch.toNat := by
  simp only [isMark, isSpace, isControl, Bool.or_eq_true, Bool.and_eq_true, decide_eq_true_eq,
    beq_iff_eq] at h
  omega

theorem toLower_of_isMark {ch : Char} (h : isMark ch = true) : ch.toLower = ch := by
  have hrange := toNat_of_isMark h
  apply Char.ext
  apply UInt32.toNat_inj.1
  show ch.toLower.toNat = ch.toNat
  rw [toNat_toLower, if_neg (by omega)]

theorem toLower_ne_sigma {ch : Char} (h : ch ≠ 'Σ') : ch.toLower ≠ 'Σ' := by
  intro hlow
  have hnat : ch.toLower.toNat = 931 := by rw [hlow]; rfl
  apply h
  apply Char.ext
  apply UInt32.toNat_inj.1
  show ch.toNat = 931
  rw [toNat_toLower] at hnat
  split at hnat
  · omega
  · exact hnat

/-- The tables as they are on ASCII and on the three sigmas. -/
def ascii : CaseTables where
  lowerFull ch := if ch = 'Σ' then ['σ'] else [ch.toLower]
  cased ch := (65 ≤ ch.toNat && ch.toNat ≤ 90) || (97 ≤ ch.toNat && ch.toNat ≤ 122) ||
    [931, 962, 963].contains ch.toNat
  caseIgnorable ch := [39, 46, 58, 94, 96].contains ch.toNat
  lowerFull_ne ch := by split <;> exact List.cons_ne_nil _ _
  lowerFull_mark ch h := by rw [if_neg (ne_sigma_of_isMark h), toLower_of_isMark h]
  mark_lowerFull ch h d hd := by
    split at hd
    · rw [List.mem_singleton.1 hd]
      rfl
    · rw [List.mem_singleton.1 hd, isMark_toLower, h]
  lowerFull_lowered ch d hd := by
    split at hd
    · rw [List.mem_singleton.1 hd]
      decide
    · next hne =>
      rw [List.mem_singleton.1 hd, if_neg (toLower_ne_sigma hne), toLower_toLower]
      exact ⟨rfl, toLower_ne_sigma hne⟩
  lowerFull_final := rfl
  cased_mark ch h := by
    have hrange := toNat_of_isMark h
    constructor
    · simp
      omega
    · simp
      omega
  lowerFull_sigma := rfl

end CaseTables

end Hledac.Py
