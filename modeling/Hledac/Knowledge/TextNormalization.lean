import Hledac.Py.Case

/-!
# Text normalisation for quality and dedup

`_normalize_for_quality` and `_compute_dedup_fingerprint`; `quality_assessment.py:104-135` and
`241-264`, without the Rust fast path. The control characters go last, after the whitespace has
been collapsed, so a word of nothing else leaves its blanks behind; and they still stand
between the letters when a capital sigma is lowered.
-/

namespace Hledac.Knowledge.TextNormalization

open Hledac.Lib Hledac.Lib.Words Hledac.Py

/-- `string.whitespace`. -/
def whitespace : List Char := [' ', '\t', '\n', '\r', '\x0b', '\x0c']

/-- `_normalize_for_quality`; lines 104-135. -/
def normalizeForQuality (t : CaseTables) (text : List Char) : List Char :=
  let lowered := t.lower text
  let stripped := stripChars lowered
  let normalized := [' '].intercalate (words isSpace stripped)
  normalized.filter fun ch => decide (32 ≤ ch.toNat) || whitespace.contains ch

/-- `_compute_dedup_fingerprint`, over any `blake2b` of 16 bytes; lines 241-264. -/
def computeDedupFingerprint (t : CaseTables) (blake2b : Bytes → String) (text : List Char) : String :=
  blake2b (encode (String.ofList (normalizeForQuality t text)))

/-! ### What should hold -/

/-- Which characters are control characters: those the docstring's rule names, or all of Unicode
category `Cc`. -/
inductive Controls where
  | rule
  | category

/-- A control character. -/
def Controls.has : Controls → Char → Bool
  | .rule, ch => ch.toNat < 32
  | .category, ch => isControl ch

/-- A control character that is no whitespace. -/
def Controls.stray (r : Controls) (ch : Char) : Bool := r.has ch && !isSpace ch

/-- A text without its control characters. -/
def Controls.without (r : Controls) (text : List Char) : List Char := text.filter fun ch => !r.stray ch

variable (r : Controls) (t : CaseTables) (blake2b : Bytes → String)

/-- Two texts differ only in case, control characters and the whitespace around their words. -/
def Alike (a b : List Char) : Prop :=
  words isSpace (t.lower (r.without a)) = words isSpace (t.lower (r.without b))

/-- The normal form of a text is one: nothing is left to normalise. -/
structure Normalised (text : List Char) : Prop where
  idempotent : normalizeForQuality t (normalizeForQuality t text) = normalizeForQuality t text
  noControls : ∀ ch ∈ normalizeForQuality t text, r.has ch = false
  tidy : Tidy ' ' (normalizeForQuality t text)

/-- The normal forms of two texts are in order, and they and the fingerprints of the texts, normalised
once or twice, are equal when the texts are alike. -/
structure Canonical (a b : List Char) : Prop where
  left : Normalised r t a
  right : Normalised r t b
  same : Alike r t a b → normalizeForQuality t a = normalizeForQuality t b ∧
    computeDedupFingerprint t blake2b a = computeDedupFingerprint t blake2b b ∧
    computeDedupFingerprint t blake2b (normalizeForQuality t a) =
      computeDedupFingerprint t blake2b (normalizeForQuality t b)

/-- The control characters are ones that the code removes, and no word has only such unless it is the
only word. -/
structure Regular (text : List Char) : Prop where
  removed : ∀ ch ∈ text, r.stray ch = true → ch.toNat < 32
  spoken : (∀ w ∈ words isSpace text, ∃ ch ∈ w, 32 ≤ ch.toNat) ∨ (words isSpace text).length ≤ 1

/-- The lower form of a part of a text without the control characters that the code removes, each
letter with whether their removal changes it. -/
def forms (before : List Char) : List Char → List (Char × Bool)
  | [] => []
  | ch :: cs =>
    let bare := t.lowerChar (Controls.rule.without before) ch (Controls.rule.without cs)
    (if Controls.rule.stray ch then []
      else bare.map fun d => (d, decide (bare ≠ t.lowerChar before ch cs))) ++ forms (ch :: before) cs

/-- Word by word, the letters of a text that are sigmas with another form because of control
characters. -/
def sigmaShifts (text : List Char) : List (List Bool) :=
  (words (fun d => isSpace d.1) (forms t [] text)).map (List.map Prod.snd)

/-- Both texts are regular and, where they are alike, control characters change the form of the
same sigmas. -/
structure Settled (a b : List Char) : Prop where
  left : Regular r a
  right : Regular r b
  shifts : Alike r t a b → sigmaShifts t a = sigmaShifts t b

/-! ### The normal form -/

variable {r t} {text : List Char}

/-- The lowered text without the control characters that the code removes. -/
def letters (t : CaseTables) (text : List Char) : List Char := Controls.rule.without (t.lower text)

theorem has_category {ch : Char} (h : r.has ch = true) : isControl ch = true := by
  cases r with
  | rule =>
    have hlow : ch.toNat < 32 := by simpa [Controls.has] using h
    simp [isControl, hlow]
  | category => exact h

theorem stray_rule {ch : Char} (h : isSpace ch = false) :
    Controls.rule.stray ch = decide (ch.toNat < 32) := by
  simp [Controls.stray, Controls.has, h]

theorem isSpace_of_whitespace {ch : Char} (h : whitespace.contains ch = true) : isSpace ch = true := by
  simp only [whitespace, List.contains_cons, List.contains_nil, Bool.or_false, Bool.or_eq_true,
    beq_iff_eq] at h
  rcases h with rfl | rfl | rfl | rfl | rfl | rfl <;> rfl

theorem words_stripChars (cs : List Char) : words isSpace (stripChars cs) = words isSpace cs := by
  rw [stripChars, words_rdropWhile, words_dropWhile]

theorem normalizeForQuality_eq (t : CaseTables) (text : List Char) :
    normalizeForQuality t text =
      [' '].intercalate ((words isSpace (t.lower text)).map Controls.rule.without) := by
  rw [normalizeForQuality, filter_intercalate rfl, words_stripChars]
  congr 1
  apply List.map_congr_left
  intro w hw
  apply List.filter_congr
  intro ch hch
  have hspace : isSpace ch = false := (of_mem_words hw hch).2
  have hwhite : whitespace.contains ch = false := by
    by_contra hno
    rw [isSpace_of_whitespace (by simpa using hno)] at hspace
    cases hspace
  rw [stray_rule hspace, hwhite, Bool.or_false, ← decide_not]
  simp only [Nat.not_lt]

theorem words_letters (t : CaseTables) (text : List Char) :
    words isSpace (letters t text) =
      ((words isSpace (t.lower text)).map Controls.rule.without).filter fun w => !w.isEmpty := by
  apply words_filter
  intro ch _ hspace
  simp [Controls.stray, hspace]

theorem without_lower_eq_nil {w : List Char} (hw : ∀ ch ∈ w, isSpace ch = false) :
    Controls.rule.without (t.lower w) = [] ↔ ∀ ch ∈ w, ch.toNat < 32 := by
  have hmark : ∀ ch, Controls.rule.stray ch = true → isMark ch = true := by
    intro ch hch
    simp only [Controls.stray, Bool.and_eq_true] at hch
    simp [isMark, has_category hch.1]
  have hlower := CaseTables.forall_lower_iff (t := t) hmark w
  rw [Controls.without, List.filter_eq_nil_iff]
  simp only [Bool.not_eq_true', Bool.not_eq_false]
  rw [hlower]
  apply forall₂_congr
  intro ch hch
  rw [stray_rule (hw ch hch), decide_eq_true_iff]

theorem blank_notMem {v : List Char}
    (hv : v ∈ (words isSpace (t.lower text)).map Controls.rule.without) : ' ' ∉ v := by
  intro hmem
  obtain ⟨w, hw, rfl⟩ := List.mem_map.1 hv
  have hspace := (of_mem_words hw (List.mem_of_mem_filter hmem)).2
  cases hspace

theorem tidy_normalizeForQuality_iff : Tidy ' ' (normalizeForQuality t text) ↔
    (∀ w ∈ words isSpace text, ∃ ch ∈ w, 32 ≤ ch.toNat) ∨ (words isSpace text).length ≤ 1 := by
  rw [normalizeForQuality_eq, tidy_intercalate_iff fun _ => blank_notMem, CaseTables.words_lower]
  simp only [List.length_map, List.mem_map, not_exists, not_and]
  apply or_congr_left
  constructor
  · intro h w hw
    by_contra hno
    push Not at hno
    refine h (t.lower w) ⟨w, hw, rfl⟩ ((without_lower_eq_nil fun ch hch => (of_mem_words hw hch).2).2 hno)
  · rintro h v ⟨w, hw, rfl⟩ hnil
    obtain ⟨ch, hch, hle⟩ := h w hw
    have hlow := (without_lower_eq_nil fun ch hch => (of_mem_words hw hch).2).1 hnil ch hch
    omega

theorem normalizeForQuality_of_tidy (h : Tidy ' ' (normalizeForQuality t text)) :
    normalizeForQuality t text = [' '].intercalate (words isSpace (letters t text)) := by
  rw [normalizeForQuality_eq] at h ⊢
  rw [words_letters]
  rcases (tidy_intercalate_iff fun _ => blank_notMem).1 h with hne | hone
  · rw [List.filter_eq_self.2]
    intro v hv
    rw [Bool.not_eq_true', List.isEmpty_eq_false_iff]
    rintro rfl
    exact hne hv
  · generalize (words isSpace (t.lower text)).map Controls.rule.without = ws at hone
    match ws, hone with
    | [], _ => rfl
    | [[]], _ => rfl
    | [_ :: _], _ => rfl

theorem mem_letters {ch : Char} :
    ch ∈ letters t text ↔ ch ∈ t.lower text ∧ Controls.rule.stray ch = false := by
  simp [letters, Controls.without]

theorem mem_normalizeForQuality {ch : Char} (h : ch ∈ normalizeForQuality t text) :
    ch = ' ' ∨ (ch ∈ letters t text ∧ isSpace ch = false) := by
  rw [normalizeForQuality_eq] at h
  apply (mem_intercalate h).imp_right
  intro hmem
  obtain ⟨v, hv, hch⟩ := List.mem_flatten.1 hmem
  obtain ⟨w, hw, rfl⟩ := List.mem_map.1 hv
  obtain ⟨hkept, hstray⟩ := List.mem_filter.1 hch
  obtain ⟨hlower, hspace⟩ := of_mem_words hw hkept
  exact ⟨mem_letters.2 ⟨hlower, by simpa using hstray⟩, hspace⟩

theorem mem_normalizeForQuality_of_letters {ch : Char} (h : ch ∈ letters t text)
    (hspace : isSpace ch = false) : ch ∈ normalizeForQuality t text := by
  obtain ⟨hlower, hstray⟩ := mem_letters.1 h
  obtain ⟨w, hw, hch⟩ := List.mem_flatten.1 (mem_words_flatten.2 ⟨hlower, hspace⟩)
  rw [normalizeForQuality_eq]
  apply mem_intercalate_of_mem_flatten
  rw [List.mem_flatten]
  exact ⟨_, List.mem_map_of_mem hw, List.mem_filter.2 ⟨hch, by simpa using hstray⟩⟩

theorem noControls_iff : (∀ ch ∈ normalizeForQuality t text, r.has ch = false) ↔
    ∀ ch ∈ text, r.stray ch = true → ch.toNat < 32 := by
  constructor
  · intro h ch hch hstray
    obtain ⟨hhas, hspace⟩ : r.has ch = true ∧ isSpace ch = false := by
      simpa [Controls.stray] using hstray
    by_contra hhigh
    have hmark : isMark ch = true := by simp [isMark, has_category hhas]
    have hletter : ch ∈ letters t text :=
      mem_letters.2 ⟨(CaseTables.mem_lower_of_isMark hmark).2 hch, by simp [stray_rule hspace, hhigh]⟩
    rw [h ch (mem_normalizeForQuality_of_letters hletter hspace)] at hhas
    cases hhas
  · intro h ch hch
    by_contra hhas
    rw [Bool.not_eq_false] at hhas
    rcases mem_normalizeForQuality hch with rfl | ⟨hletter, hspace⟩
    · cases r <;> cases hhas
    · obtain ⟨hlower, hstray⟩ := mem_letters.1 hletter
      have hmark : isMark ch = true := by simp [isMark, has_category hhas]
      have hlow := h ch ((CaseTables.mem_lower_of_isMark hmark).1 hlower)
        (by simp [Controls.stray, hhas, hspace])
      rw [stray_rule hspace, decide_eq_false_iff_not] at hstray
      exact hstray hlow

theorem words_normalizeForQuality (h : Tidy ' ' (normalizeForQuality t text)) :
    words isSpace (normalizeForQuality t text) = words isSpace (letters t text) := by
  rw [normalizeForQuality_of_tidy h]
  apply words_intercalate rfl
  intro w hw
  exact ⟨ne_nil_of_mem_words hw, fun ch hch => (of_mem_words hw hch).2⟩

theorem normalizeForQuality_idempotent (h : Tidy ' ' (normalizeForQuality t text)) :
    normalizeForQuality t (normalizeForQuality t text) = normalizeForQuality t text := by
  have hlower : t.lower (normalizeForQuality t text) = normalizeForQuality t text := by
    apply CaseTables.lower_of_lowered
    intro d hd
    rcases mem_normalizeForQuality hd with rfl | ⟨hletter, -⟩
    · exact ⟨t.lowerFull_mark ' ' rfl, by decide⟩
    · exact CaseTables.lowered_of_mem_lower (mem_letters.1 hletter).1
  have hkept : (words isSpace (letters t text)).map Controls.rule.without = words isSpace (letters t text) := by
    conv_rhs => rw [← List.map_id (words isSpace (letters t text))]
    apply List.map_congr_left
    intro w hw
    apply List.filter_eq_self.2
    intro ch hch
    simp [(mem_letters.1 (of_mem_words hw hch).1).2]
  rw [normalizeForQuality_eq t (normalizeForQuality t text), hlower, words_normalizeForQuality h, hkept,
    normalizeForQuality_of_tidy h]

theorem normalised_iff : Normalised r t text ↔ Regular r text := by
  constructor
  · intro h
    exact ⟨noControls_iff.1 h.noControls, tidy_normalizeForQuality_iff.1 h.tidy⟩
  · intro h
    have htidy : Tidy ' ' (normalizeForQuality t text) := tidy_normalizeForQuality_iff.2 h.spoken
    exact ⟨normalizeForQuality_idempotent htidy, noControls_iff.2 h.removed, htidy⟩

/-! ### Sigmas -/

/-- A letter of a form, with the shift undone. -/
def unshift (d : Char × Bool) : Char := if d.2 then (if d.1 = 'σ' then 'ς' else 'σ') else d.1

theorem without_append (a b : List Char) : r.without (a ++ b) = r.without a ++ r.without b :=
  List.filter_append ..

theorem map_fst_forms (before text : List Char) :
    (forms t before text).map Prod.fst = t.lowerIn (Controls.rule.without before) (Controls.rule.without text) [] := by
  induction text generalizing before with
  | nil => rfl
  | cons ch cs ih =>
    rw [forms, List.map_append, ih]
    cases hstray : Controls.rule.stray ch with
    | true => simp [Controls.without, hstray]
    | false => simp [Controls.without, hstray, CaseTables.lowerIn, Function.comp_def]

theorem isMark_of_stray {ch : Char} (h : r.stray ch = true) : isMark ch = true := by
  simp only [Controls.stray, Bool.and_eq_true] at h
  simp [isMark, has_category h.1]

theorem without_lowerChar {ch : Char} (h : r.stray ch = false) (before after : List Char) :
    r.without (t.lowerChar before ch after) = t.lowerChar before ch after := by
  apply List.filter_eq_self.2
  intro d hd
  rw [Bool.not_eq_true']
  by_contra hstray
  rw [Bool.not_eq_false] at hstray
  have hmark : isMark ch = true := (CaseTables.isMark_lowerChar hd).symm.trans (isMark_of_stray hstray)
  rw [CaseTables.lowerChar_mark hmark, List.mem_singleton] at hd
  rw [hd, h] at hstray
  cases hstray

theorem eq_sigma_of_ne {before after before' after' : List Char} {ch : Char}
    (h : t.lowerChar before ch after ≠ t.lowerChar before' ch after') : ch = 'Σ' := by
  by_contra hne
  apply h
  rw [CaseTables.lowerChar, CaseTables.lowerChar, if_neg hne, if_neg hne]

theorem unshift_lowerChar (before after before' after' : List Char) (ch : Char) :
    (t.lowerChar before ch after).map (fun d => unshift
      (d, decide (t.lowerChar before ch after ≠ t.lowerChar before' ch after'))) =
      t.lowerChar before' ch after' := by
  by_cases heq : t.lowerChar before ch after = t.lowerChar before' ch after'
  · simp [heq, unshift]
  · obtain rfl := eq_sigma_of_ne heq
    cases hform : t.finalSigma before after <;> cases hform' : t.finalSigma before' after' <;>
      simp [CaseTables.lowerChar, hform, hform', unshift]

theorem map_unshift_forms (before text : List Char) :
    (forms t before text).map unshift = Controls.rule.without (t.lowerIn before text []) := by
  induction text generalizing before with
  | nil => rfl
  | cons ch cs ih =>
    rw [forms, List.map_append, ih, CaseTables.lowerIn, without_append, List.append_nil]
    congr 1
    cases hstray : Controls.rule.stray ch with
    | true =>
      have hmark : isMark ch = true := isMark_of_stray hstray
      simp [Controls.without, hstray, CaseTables.lowerChar_mark hmark]
    | false =>
      rw [without_lowerChar hstray, if_neg Bool.false_ne_true, List.map_map]
      exact unshift_lowerChar _ _ _ _ ch

theorem isSpace_unshift {before text : List Char} {d : Char × Bool} (h : d ∈ forms t before text) :
    isSpace (unshift d) = isSpace d.1 := by
  induction text generalizing before with
  | nil => cases h
  | cons ch cs ih =>
    rw [forms, List.mem_append] at h
    rcases h with hd | hd
    · cases hstray : Controls.rule.stray ch with
      | true => simp [hstray] at hd
      | false =>
        rw [hstray, if_neg Bool.false_ne_true] at hd
        obtain ⟨c, hc, rfl⟩ := List.mem_map.1 hd
        rw [unshift]
        split
        · next hshift =>
          -- a shifted letter is one of the two lower-case sigmas
          obtain rfl := eq_sigma_of_ne (of_decide_eq_true hshift)
          rw [CaseTables.lowerChar, if_pos rfl, List.mem_singleton] at hc
          rw [hc]
          split <;> split <;> rfl
        · rfl
    · exact ih hd

/-- The words of the lower form without control characters, with their shifts. -/
def formWords (t : CaseTables) (text : List Char) : List (List (Char × Bool)) :=
  words (fun d => isSpace d.1) (forms t [] text)

theorem words_lower_without (t : CaseTables) (text : List Char) :
    words isSpace (t.lower (Controls.rule.without text)) = (formWords t text).map (List.map Prod.fst) := by
  rw [formWords, ← words_map (f := Prod.fst) fun _ _ => rfl, map_fst_forms]
  rfl

theorem words_letters_eq (t : CaseTables) (text : List Char) :
    words isSpace (letters t text) = (formWords t text).map (List.map unshift) := by
  rw [formWords, ← words_map (q := isSpace) fun _ hd => isSpace_unshift hd, map_unshift_forms]
  rfl

theorem eq_of_map_eq_map {α β γ : Type} {f : α → β} {g : α → γ}
    (hfg : ∀ x y, f x = f y → g x = g y → x = y) {l l' : List α} (hf : l.map f = l'.map f)
    (hg : l.map g = l'.map g) : l = l' := by
  induction l generalizing l' with
  | nil => exact (List.map_eq_nil_iff.1 hf.symm).symm
  | cons x l ih =>
    cases l' with
    | nil => cases hf
    | cons y l' =>
      simp only [List.map_cons, List.cons.injEq] at hf hg
      rw [hfg x y hf.1 hg.1, ih hf.2 hg.2]

theorem eq_of_unshift {d e : Char × Bool} (hfst : d.1 = e.1) (h : unshift d = unshift e) : d = e := by
  obtain ⟨ch, x⟩ := d
  obtain ⟨ch', y⟩ := e
  obtain rfl : ch = ch' := hfst
  by_cases hsigma : ch = 'σ'
  · cases x <;> cases y <;> simp [unshift, hsigma] at h ⊢
  · cases x <;> cases y <;> simp [unshift, hsigma, eq_comm] at h ⊢

theorem words_letters_eq_iff {a b : List Char}
    (h : words isSpace (t.lower (Controls.rule.without a)) = words isSpace (t.lower (Controls.rule.without b))) :
    words isSpace (letters t a) = words isSpace (letters t b) ↔ sigmaShifts t a = sigmaShifts t b := by
  rw [words_lower_without, words_lower_without] at h
  have hshifts : ∀ c, sigmaShifts t c = (formWords t c).map (List.map Prod.snd) := fun _ => rfl
  rw [words_letters_eq, words_letters_eq, hshifts, hshifts]
  constructor
  · intro hletters
    have heq : formWords t a = formWords t b :=
      eq_of_map_eq_map (fun _ _ => eq_of_map_eq_map fun _ _ => eq_of_unshift) h hletters
    rw [heq]
  · intro hbits
    have heq : formWords t a = formWords t b :=
      eq_of_map_eq_map (fun _ _ => eq_of_map_eq_map fun _ _ => Prod.ext) h hbits
    rw [heq]

/-! ### Two texts -/

theorem without_of_removed {text : List Char} (h : ∀ ch ∈ text, r.stray ch = true → ch.toNat < 32) :
    r.without text = Controls.rule.without text := by
  apply List.filter_congr
  intro ch hch
  congr 1
  rw [Bool.eq_iff_iff]
  constructor
  · intro hstray
    have hspace : isSpace ch = false := by
      simp only [Controls.stray, Bool.and_eq_true] at hstray
      simpa using hstray.2
    simp [stray_rule hspace, h ch hch hstray]
  · intro hstray
    cases r with
    | rule => exact hstray
    | category =>
      simp only [Controls.stray, Controls.has, Bool.and_eq_true] at hstray ⊢
      exact ⟨has_category (r := .rule) hstray.1, hstray.2⟩

theorem normalizeForQuality_eq_iff {a b : List Char} (ha : Tidy ' ' (normalizeForQuality t a))
    (hb : Tidy ' ' (normalizeForQuality t b)) : normalizeForQuality t a = normalizeForQuality t b ↔
      words isSpace (letters t a) = words isSpace (letters t b) := by
  constructor
  · intro h
    rw [← words_normalizeForQuality ha, ← words_normalizeForQuality hb, h]
  · intro h
    rw [normalizeForQuality_of_tidy ha, normalizeForQuality_of_tidy hb, h]

theorem same_iff_of_regular {a b : List Char} (ha : Regular r a) (hb : Regular r b) (h : Alike r t a b) :
    normalizeForQuality t a = normalizeForQuality t b ↔ sigmaShifts t a = sigmaShifts t b := by
  rw [Alike, without_of_removed ha.removed, without_of_removed hb.removed] at h
  rw [normalizeForQuality_eq_iff (normalised_iff.2 ha).tidy (normalised_iff.2 hb).tidy,
    words_letters_eq_iff h]

/-- Normalisation is canonical just for texts without a word of control characters only between other
words, without control characters that the code keeps, and with the same sigmas shifted. -/
theorem canonical_iff (r : Controls) (t : CaseTables) (blake2b : Bytes → String) (a b : List Char) :
    Canonical r t blake2b a b ↔ Settled r t a b := by
  constructor
  · intro h
    have ha : Regular r a := normalised_iff.1 h.left
    have hb : Regular r b := normalised_iff.1 h.right
    exact ⟨ha, hb, fun halike => (same_iff_of_regular ha hb halike).1 (h.same halike).1⟩
  · intro h
    refine ⟨normalised_iff.2 h.left, normalised_iff.2 h.right, fun halike => ?_⟩
    have hsame := (same_iff_of_regular h.left h.right halike).2 (h.shifts halike)
    refine ⟨hsame, ?_, ?_⟩
    · rw [computeDedupFingerprint, computeDedupFingerprint, hsame]
    · rw [hsame]

/-- A word of one NUL between two others leaves two blanks. -/
theorem not_canonical :
    ¬ Canonical .rule CaseTables.ascii (fun _ => "") "a \x00 b".toList "a b".toList := by
  intro h
  rcases (normalised_iff.1 h.left).spoken with hspoken | hshort
  · obtain ⟨ch, hch, hle⟩ := hspoken ['\x00'] (by decide)
    obtain rfl := List.mem_singleton.1 hch
    exact absurd hle (by decide)
  · exact absurd hshort (by decide)

example : normalizeForQuality CaseTables.ascii "A \x00 b".toList = "a  b".toList := by decide

end Hledac.Knowledge.TextNormalization
