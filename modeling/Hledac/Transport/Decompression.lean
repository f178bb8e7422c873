import Mathlib.Data.Bool.AllAny
import Hledac.Py.Parse

/-!
# Content codings

`decode_response_body` peels the layers of a body off in the order in which the header lists them, and a sender applies
them in that order, so that the layer which is peeled first is the innermost one.
-/

namespace Hledac.Transport.Decompression

open Hledac.Lib Hledac.Py

/-- `MAX_DECODE_BODY_BYTES`; `transport/decompression.py:30`. -/
def maxDecodeBodyBytes : Nat := 10485760

/-- `_MAX_DECODE_LAYERS`; line 45. -/
def maxDecodeLayers : Nat := 3

/-- What the decoders raise, as far as a handler tells it apart. -/
inductive CodecError where
  | osError
  | eofError
  | zlibError
  | other
  deriving DecidableEq

/-- The formats of the data. -/
inductive Format where
  | gzip
  | zlib
  | raw
  | br
  deriving DecidableEq

/-- `gzip.decompress`, `zlib.decompress` with a header and without, and the decompressor of `brotlicffi` where it is
installed. -/
structure Codecs where
  gzip : Bytes → Except CodecError Bytes
  zlib : Bytes → Except CodecError Bytes
  raw : Bytes → Except CodecError Bytes
  brotli : Option (Bytes → Except CodecError Bytes)

variable (c : Codecs) (encode : Format → Bytes → Bytes)

/-- `_decode_one_layer`; lines 61-95. -/
def decodeOneLayer (body : Bytes) (coding : String) : Except CodecError (Option Bytes) :=
  let codingNorm := lower (strip coding)
  if codingNorm = "identity" ∨ codingNorm = "" then .ok (some body)
  else if codingNorm = "gzip" then
    match c.gzip body with
    | .ok decoded => .ok (some decoded)
    | .error e => if e = .osError ∨ e = .eofError ∨ e = .zlibError then .ok none else .error e
  else if codingNorm = "deflate" then
    match c.zlib body with
    | .ok decoded => .ok (some decoded)
    | .error e =>
      if e = .zlibError then
        match c.raw body with
        | .ok decoded => .ok (some decoded)
        | .error e => if e = .zlibError then .ok none else .error e
      else .error e
  else if codingNorm = "br" ∨ codingNorm = "brotli" then
    match c.brotli with
    | none => .ok none
    | some process =>
      match process body with
      | .ok decoded => .ok (some decoded)
      | .error _ => .ok none
  else .ok none

/-- The loop over the layers; lines 132-148. -/
def peelLayers : List String → Bytes → Except CodecError Bytes
  | [], current => .ok current
  | coding :: codings, current =>
    match decodeOneLayer c current coding with
    | .error e => .error e
    | .ok none => .ok current
    | .ok (some decoded) => peelLayers codings decoded

/-- The codings of a header; line 128. -/
def codingsOf (contentEncoding : String) : List String :=
  ((contentEncoding.toList.splitOn ',').map fun part => String.ofList (stripChars part)).filter (· ≠ "")

/-- `decode_response_body`; lines 98-148. -/
def decodeResponseBody (body : Bytes) (contentEncoding : Option String) : Except CodecError Bytes :=
  match contentEncoding with
  | none => .ok body
  | some header =>
    if header = "" then .ok body
    else if body = [] then .ok body
    else if maxDecodeBodyBytes < body.length then .ok body
    else if codingsOf header = [] then .ok body
    else peelLayers c ((codingsOf header).take maxDecodeLayers) body

/-! ### Layers -/

/-- The codings. -/
inductive Coding where
  | identity
  | gzip
  | deflate
  | br
  deriving DecidableEq

/-- The name of a coding. -/
def Coding.name : Coding → String
  | .identity => "identity"
  | .gzip => "gzip"
  | .deflate => "deflate"
  | .br => "br"

/-- The coding of a format: a deflated body has a zlib header or none. -/
def Format.coding : Format → Coding
  | .gzip => .gzip
  | .zlib => .deflate
  | .raw => .deflate
  | .br => .br

/-- The coding that a text stands for, where there is one. -/
def Coding.ofText (text : String) : Option Coding :=
  let norm := lower (strip text)
  if norm = "identity" ∨ norm = "" then some .identity
  else if norm = "gzip" then some .gzip
  else if norm = "deflate" then some .deflate
  else if norm = "br" ∨ norm = "brotli" then some .br
  else none

/-- The decoder of a format. -/
def Codecs.decoder : Format → Bytes → Except CodecError Bytes
  | .gzip => c.gzip
  | .zlib => c.zlib
  | .raw => c.raw
  | .br => c.brotli.getD fun _ => .error .other

/-- A body without the layer of a coding, where it has one. -/
def Codecs.undo (body : Bytes) : Coding → Option Bytes
  | .identity => some body
  | .gzip => (c.decoder .gzip body).toOption
  | .deflate => (c.decoder .zlib body).toOption.or (c.decoder .raw body).toOption
  | .br => (c.decoder .br body).toOption

/-- What is assumed of the codecs: a decoder undoes its encoder, so that also the one of `br` is there, it rejects what
another encoder made and raises what it is documented to raise, and some small body is in no format at all. -/
structure Lawful : Prop where
  inverts : ∀ f body, c.decoder f (encode f body) = .ok body
  rejects : ∀ f g body decoded, g ≠ f → c.decoder g (encode f body) ≠ .ok decoded
  gzip_raises : ∀ body e, c.gzip body = .error e → e ≠ .other
  zlib_raises : ∀ body e, c.zlib body = .error e → e = .zlibError
  raw_raises : ∀ body e, c.raw body = .error e → e = .zlibError
  encode_ne_nil : ∀ f body, encode f body ≠ []
  plain : ∃ body, (∀ f decoded, c.decoder f body ≠ .ok decoded) ∧
    ∀ fs : List Format, fs.length ≤ maxDecodeLayers → (fs.foldr encode body).length ≤ maxDecodeBodyBytes

/-- One coding is applied to a body. -/
def Encoded (body encoded : Bytes) : Coding → Prop
  | .identity => encoded = body
  | k => ∃ f : Format, f.coding = k ∧ encoded = encode f body

/-- Codings are applied to a body in the order of the list. -/
def Applied : List Coding → Bytes → Bytes → Prop
  | [], body, encoded => encoded = body
  | k :: ks, body, encoded => ∃ next, Encoded encode body next k ∧ Applied ks next encoded

/-- A part of a header is the name of a coding in any letter case, between spaces. -/
def SpelledAs (part : List Char) (k : Coding) : Prop :=
  ∃ before name after, part = before ++ name ++ after ∧ (∀ ch ∈ before ++ after, isSpace ch = true) ∧
    name.map Char.toLower = k.name.toList

/-- A header lists the codings. -/
def Spells (header : String) (ks : List Coding) : Prop :=
  ∃ parts, header.toList = [','].intercalate parts ∧ List.Forall₂ SpelledAs parts ks

/-- A body without the layer that a text names. -/
def removeLayer (body : Bytes) (coding : String) : Option Bytes := (Coding.ofText coding).bind (c.undo body)

/-- Some number of outermost layers, codings from the end of the list, is removed. -/
def OuterRemoved (codings : List String) (body result : Bytes) : Prop :=
  ∃ removed, removed <+: codings.reverse ∧ removed.foldlM (removeLayer c) body = some result

/-- A header is undone: every body to which up to three codings were applied as it lists them is restored, and of every
byte string some outermost layers are removed. -/
structure Undone (header : String) : Prop where
  restores : ∀ ks body encoded, Spells header ks → ks.length ≤ maxDecodeLayers → Applied encode ks body encoded →
    encoded.length ≤ maxDecodeBodyBytes → decodeResponseBody c encoded (some header) = .ok body
  removes : ∀ body, ∃ result, decodeResponseBody c body (some header) = .ok result ∧
    OuterRemoved c (codingsOf header) body result

/-- The layers that a list of texts names up to the first text that names none, the identity left out. -/
def layers : List String → List Coding
  | [] => []
  | text :: texts =>
    match Coding.ofText text with
    | none => []
    | some k => if k = .identity then layers texts else k :: layers texts

/-- The loop over layers: it ends at the first that cannot be removed. -/
def peel (body : Bytes) : List Coding → Bytes
  | [] => body
  | k :: ks =>
    match c.undo body k with
    | none => body
    | some decoded => peel decoded ks

section Peeling

variable {c encode} {ks l : List Coding} {body result encoded : Bytes}

theorem exists_prefix_cons_iff {α β : Type} {f : β → α → Option β} {a : α} {as : List α} {b r : β} :
    (∃ l, l <+: a :: as ∧ l.foldlM f b = some r) ↔
      b = r ∨ ∃ next, f b a = some next ∧ ∃ l, l <+: as ∧ l.foldlM f next = some r := by
  constructor
  · rintro ⟨l, hpre, hl⟩
    cases l with
    | nil => exact .inl (Option.some.inj hl)
    | cons a' l =>
      have hcons := List.cons_prefix_cons.1 hpre
      rw [List.foldlM_cons, hcons.1] at hl
      cases hnext : f b a with
      | none => rw [hnext] at hl; cases hl
      | some next =>
        rw [hnext] at hl
        exact .inr ⟨next, rfl, l, hcons.2, hl⟩
  · intro h
    cases h with
    | inl h => exact ⟨[], List.nil_prefix, congrArg some h⟩
    | inr h =>
      obtain ⟨next, hnext, l, hpre, hl⟩ := h
      refine ⟨a :: l, List.cons_prefix_cons.2 ⟨rfl, hpre⟩, ?_⟩
      rw [List.foldlM_cons, hnext]
      exact hl

theorem peel_spec (body : Bytes) (l : List Coding) : ∃ ks, ks <+: l ∧ ks.foldlM c.undo body = some (peel c body l) := by
  induction l generalizing body with
  | nil => exact ⟨[], List.prefix_rfl, rfl⟩
  | cons k l ih =>
    rw [peel]
    cases hundo : c.undo body k with
    | none => exact ⟨[], List.nil_prefix, rfl⟩
    | some decoded =>
      exact exists_prefix_cons_iff.2 (.inr ⟨decoded, hundo, ih decoded⟩)

theorem peel_of_foldlM (h : l.foldlM c.undo body = some result) : peel c body l = result := by
  induction l generalizing body with
  | nil => exact Option.some.inj h
  | cons k l ih =>
    rw [List.foldlM_cons] at h
    rw [peel]
    cases hundo : c.undo body k with
    | none =>
      rw [hundo] at h
      cases h
    | some decoded =>
      rw [hundo] at h
      exact ih h

theorem foldlM_removeLayer_iff (texts : List String) (body result : Bytes) :
    (∃ removed, removed <+: texts ∧ removed.foldlM (removeLayer c) body = some result) ↔
      ∃ ks, ks <+: layers texts ∧ ks.foldlM c.undo body = some result := by
  induction texts generalizing body with
  | nil => simp [layers]
  | cons text texts ih =>
    rw [exists_prefix_cons_iff, layers, removeLayer]
    cases htext : Coding.ofText text with
    | none => simp
    | some k =>
      simp only [Option.bind_some, ih]
      by_cases hidentity : k = .identity
      · subst hidentity
        simp only [if_pos, Codecs.undo, Option.some.injEq, exists_eq_left']
        constructor
        · intro h
          cases h with
          | inl h => exact ⟨[], List.nil_prefix, congrArg some h⟩
          | inr h => exact h
        · exact .inr
      · rw [if_neg hidentity, exists_prefix_cons_iff]

end Peeling

/-! ### What the decoder does -/

section Decoder

variable {c encode} {body : Bytes}

theorem decodeOneLayer_eq (laws : Lawful c encode) (body : Bytes) (text : String) :
    decodeOneLayer c body text = .ok (removeLayer c body text) := by
  rw [removeLayer, Coding.ofText]
  unfold decodeOneLayer
  simp only []
  split
  · rfl
  split
  · show _ = Except.ok (c.gzip body).toOption
    cases hgzip : c.gzip body with
    | ok decoded => rfl
    | error e =>
      have he := laws.gzip_raises body e hgzip
      cases e <;> first | rfl | exact absurd rfl he
  split
  · show _ = Except.ok ((c.zlib body).toOption.or (c.raw body).toOption)
    cases hzlib : c.zlib body with
    | ok decoded => rfl
    | error e =>
      simp only [laws.zlib_raises body e hzlib, if_pos]
      cases hraw : c.raw body with
      | ok decoded => rfl
      | error e =>
        simp only [laws.raw_raises body e hraw, if_pos]
        rfl
  split
  · show _ = Except.ok (c.decoder .br body).toOption
    rw [Codecs.decoder]
    cases hprocess : c.brotli with
    | none => rfl
    | some process =>
      simp only [Option.getD_some]
      cases process body with
      | ok decoded => rfl
      | error e => rfl
  · rfl

theorem peelLayers_eq (laws : Lawful c encode) (texts : List String) (body : Bytes) :
    peelLayers c texts body = .ok (peel c body (layers texts)) := by
  induction texts generalizing body with
  | nil => rfl
  | cons text texts ih =>
    rw [peelLayers, decodeOneLayer_eq laws, layers, removeLayer]
    cases htext : Coding.ofText text with
    | none => rfl
    | some k =>
      simp only [Option.bind_some]
      by_cases hidentity : k = .identity
      · rw [hidentity, if_pos rfl]
        exact ih body
      · rw [if_neg hidentity, peel]
        cases c.undo body k with
        | none => rfl
        | some decoded => exact ih decoded

theorem decodeResponseBody_eq (laws : Lawful c encode) (body : Bytes) (header : String) :
    decodeResponseBody c body (some header) =
      .ok (if body = [] ∨ maxDecodeBodyBytes < body.length then body
        else peel c body (layers ((codingsOf header).take maxDecodeLayers))) := by
  unfold decodeResponseBody
  simp only []
  by_cases hheader : header = ""
  · have hnone : codingsOf header = [] := by
      rw [hheader]
      decide
    rw [if_pos hheader, hnone]
    split
    · rfl
    · rfl
  rw [if_neg hheader]
  by_cases hnil : body = []
  · rw [if_pos hnil, if_pos (.inl hnil)]
  by_cases hcap : maxDecodeBodyBytes < body.length
  · rw [if_neg hnil, if_pos hcap, if_pos (.inr hcap)]
  rw [if_neg hnil, if_neg hcap, if_neg (not_or.2 ⟨hnil, hcap⟩), ← peelLayers_eq laws]
  split
  · next hnone =>
    rw [hnone]
    rfl
  · rfl

end Decoder

/-! ### Headers -/

theorem stripChars_pad {before name after : List Char} (hpad : ∀ ch ∈ before ++ after, isSpace ch = true)
    (hname : ∀ ch ∈ name, isSpace ch = false) (hne : name ≠ []) : stripChars (before ++ name ++ after) = name := by
  have hbefore : ∀ ch ∈ before, isSpace ch = true := fun ch h => hpad ch (List.mem_append_left _ h)
  have hafter : ∀ ch ∈ after, isSpace ch = true := fun ch h => hpad ch (List.mem_append_right _ h)
  have hfront : (name ++ after).dropWhile isSpace = name ++ after := by
    cases name with
    | nil => exact absurd rfl hne
    | cons ch name => simp [hname ch List.mem_cons_self]
  have hback : name.rdropWhile isSpace = name := by
    refine List.rdropWhile_eq_self_iff.2 fun hl => ?_
    simp [hname _ (List.getLast_mem hl)]
  rw [stripChars, List.append_assoc, List.dropWhile_append_of_pos hbefore, hfront, List.rdropWhile,
    List.reverse_append, List.dropWhile_append_of_pos fun ch h => hafter ch (List.mem_reverse.1 h)]
  exact hback

theorem SpelledAs.stripped {part : List Char} {k : Coding} (h : SpelledAs part k) :
    ',' ∉ part ∧ stripChars part ≠ [] ∧ Coding.ofText (String.ofList (stripChars part)) = some k := by
  obtain ⟨before, name, after, rfl, hpad, hname⟩ := h
  have hletters : ∀ ch ∈ k.name.toList, isSpace ch = false ∧ ch ≠ ',' :=
    List.all_iff_forall_prop.1 (by cases k <;> decide)
  have hspaces : ∀ ch ∈ name, isSpace ch = false := by
    intro ch hch
    rw [← isSpace_toLower]
    exact (hletters _ (hname ▸ List.mem_map_of_mem hch)).1
  have hne : name ≠ [] := by
    rintro rfl
    cases k <;> exact absurd hname (by decide)
  rw [stripChars_pad hpad hspaces hne]
  refine ⟨fun hcomma => ?_, hne, ?_⟩
  · rw [List.append_assoc, List.mem_append, List.mem_append, or_left_comm, ← List.mem_append] at hcomma
    cases hcomma with
    | inl hcomma => exact (hletters _ (hname ▸ List.mem_map_of_mem hcomma)).2 (by decide)
    | inr hcomma => exact absurd (hpad _ hcomma) (by decide)
  · have hnorm : lower (strip (String.ofList name)) = k.name := by
      rw [strip_of_forall (by rwa [String.toList_ofList]), lower, String.toList_ofList, hname, String.ofList_toList]
    rw [Coding.ofText]
    simp only [hnorm]
    cases k <;> decide

theorem codingsOf_of_spells {header : String} {ks : List Coding} (h : Spells header ks) :
    (codingsOf header).map Coding.ofText = ks.map some := by
  obtain ⟨parts, hheader, hparts⟩ := h
  have hfilter : (((parts.map fun part => String.ofList (stripChars part)).filter (· ≠ "")).map Coding.ofText) =
      ks.map some := by
    clear hheader
    induction hparts with
    | nil => rfl
    | cons hpart _ ih =>
      have hstripped := hpart.stripped
      rw [List.map_cons, List.filter_cons_of_pos, List.map_cons, hstripped.2.2, ih, List.map_cons]
      simpa [String.ofList_eq_empty_iff] using hstripped.2.1
  have hcomma : ∀ part ∈ parts, ',' ∉ part := by
    clear hheader hfilter
    induction hparts with
    | nil => simp
    | cons hpart _ ih => exact List.forall_mem_cons.2 ⟨hpart.stripped.1, ih⟩
  rw [codingsOf, hheader]
  cases hparts with
  | nil =>
    simp only [List.map_nil]
    decide
  | cons hpart hparts =>
    rw [List.splitOn_intercalate ',' hcomma (List.cons_ne_nil _ _)]
    exact hfilter

theorem layers_of_map {texts : List String} {ks : List Coding} (h : texts.map Coding.ofText = ks.map some) :
    layers texts = ks.filter (· ≠ .identity) := by
  induction texts generalizing ks with
  | nil =>
    rw [List.map_eq_nil_iff.1 h.symm]
    rfl
  | cons text texts ih =>
    cases ks with
    | nil => cases h
    | cons k ks =>
      have hcons := List.cons.inj h
      rw [layers, hcons.1]
      by_cases hidentity : k = .identity
      · simp [hidentity, ih hcons.2]
      · simp [hidentity, ih hcons.2]

/-! ### Applied codings -/

section Applied

variable {c encode} {ks l : List Coding} {body encoded : Bytes}

theorem Lawful.undo_encode (laws : Lawful c encode) (f : Format) (body : Bytes) :
    c.undo (encode f body) f.coding = some body := by
  have hinverts := laws.inverts f body
  cases f with
  | gzip => simp [Format.coding, Codecs.undo, hinverts, Except.toOption]
  | zlib => simp [Format.coding, Codecs.undo, hinverts, Except.toOption]
  | raw =>
    cases hzlib : c.decoder .zlib (encode .raw body) with
    | ok decoded => exact absurd hzlib (laws.rejects .raw .zlib body decoded (by decide))
    | error e => simp [Format.coding, Codecs.undo, hinverts, hzlib, Except.toOption]
  | br => simp [Format.coding, Codecs.undo, hinverts, Except.toOption]

theorem decoder_of_undo {k : Coding} {next : Bytes} (hk : k ≠ .identity) (h : c.undo body k = some next) :
    ∃ f : Format, f.coding = k ∧ c.decoder f body = .ok next := by
  have hto : ∀ {x : Except CodecError Bytes}, x.toOption = some next → x = .ok next := by
    intro x hx
    cases x with
    | ok decoded => exact congrArg Except.ok (Option.some.inj hx)
    | error e => cases hx
  cases k with
  | identity => exact absurd rfl hk
  | gzip => exact ⟨.gzip, rfl, hto h⟩
  | deflate =>
    cases Option.or_eq_some_iff.1 h with
    | inl h => exact ⟨.zlib, rfl, hto h⟩
    | inr h => exact ⟨.raw, rfl, hto h.2⟩
  | br => exact ⟨.br, rfl, hto h⟩

theorem Encoded.exists_format {k : Coding} {next : Bytes} (h : Encoded encode body next k) (hk : k ≠ .identity) :
    ∃ f : Format, f.coding = k ∧ next = encode f body := by
  cases k with
  | identity => exact absurd rfl hk
  | gzip => exact h
  | deflate => exact h
  | br => exact h

theorem foldlM_of_applied (laws : Lawful c encode) (h : Applied encode ks body encoded) :
    (ks.filter (· ≠ .identity)).reverse.foldlM c.undo encoded = some body := by
  induction ks generalizing body with
  | nil =>
    rw [Applied] at h
    rw [h]
    rfl
  | cons k ks ih =>
    obtain ⟨next, hnext, hrest⟩ := h
    by_cases hidentity : k = .identity
    · subst hidentity
      rw [Encoded] at hnext
      rw [List.filter_cons_of_neg (by simp), ← hnext]
      exact ih hrest
    · rw [List.filter_cons_of_pos (by simpa using hidentity), List.reverse_cons, List.foldlM_append, ih hrest]
      obtain ⟨f, rfl, rfl⟩ := hnext.exists_format hidentity
      simp [laws.undo_encode f body]

theorem Applied.eq_nil (laws : Lawful c encode) (h : Applied encode ks body []) : body = [] := by
  induction ks generalizing body with
  | nil => exact h.symm
  | cons k ks ih =>
    obtain ⟨next, hnext, hrest⟩ := h
    rw [ih hrest] at hnext
    by_cases hidentity : k = .identity
    · rw [hidentity] at hnext
      exact hnext.symm
    · obtain ⟨f, _, hf⟩ := hnext.exists_format hidentity
      exact absurd hf.symm (laws.encode_ne_nil f body)

theorem foldlM_foldr (laws : Lawful c encode) (fs : List Format) (body : Bytes) :
    (fs.map Format.coding).foldlM c.undo (fs.foldr encode body) = some body := by
  induction fs with
  | nil => rfl
  | cons f fs ih =>
    rw [List.map_cons, List.foldlM_cons, List.foldr_cons, laws.undo_encode]
    exact ih

theorem eq_of_foldlM_foldr (laws : Lawful c encode) (hplain : ∀ f decoded, c.decoder f body ≠ .ok decoded)
    (hks : ∀ k ∈ ks, k ≠ .identity) (fs : List Format)
    (h : ks.foldlM c.undo (fs.foldr encode body) = some body) : ks = fs.map Format.coding := by
  have hplain' : ∀ k ≠ Coding.identity, ∀ next, c.undo body k ≠ some next := by
    intro k hk next hundo
    obtain ⟨f, _, hf⟩ := decoder_of_undo hk hundo
    exact hplain f next hf
  induction fs generalizing ks with
  | nil =>
    cases ks with
    | nil => rfl
    | cons k ks =>
      have hk := List.forall_mem_cons.1 hks
      rw [List.foldlM_cons, List.foldr_nil] at h
      cases hundo : c.undo body k with
      | none => rw [hundo] at h; cases h
      | some next => exact absurd hundo (hplain' k hk.1 next)
  | cons f fs ih =>
    rw [List.foldr_cons] at h
    cases ks with
    | nil =>
      have heq : encode f (fs.foldr encode body) = body := Option.some.inj h
      exact absurd (heq ▸ laws.inverts f (fs.foldr encode body)) (hplain f _)
    | cons k ks =>
      have hk := List.forall_mem_cons.1 hks
      rw [List.foldlM_cons] at h
      cases hundo : c.undo (encode f (fs.foldr encode body)) k with
      | none => rw [hundo] at h; cases h
      | some next =>
        obtain ⟨g, hg, hdecoded⟩ := decoder_of_undo hk.1 hundo
        have hgf : g = f := by
          by_contra hne
          exact laws.rejects f g _ next hne hdecoded
        rw [hundo] at h
        rw [hgf, laws.inverts] at hdecoded
        have hnext := Except.ok.inj hdecoded
        subst hnext
        rw [List.map_cons, ← ih hk.2 h, ← hgf, hg]

end Applied

theorem mem_layers (texts : List String) : ∀ k ∈ layers texts, k ≠ .identity := by
  induction texts with
  | nil => simp [layers]
  | cons text texts ih =>
    rw [layers]
    cases Coding.ofText text with
    | none => simp
    | some k =>
      by_cases hidentity : k = .identity
      · simpa [hidentity] using ih
      · simp only [if_neg hidentity]
        exact List.forall_mem_cons.2 ⟨hidentity, ih⟩

theorem length_layers_le (texts : List String) : (layers texts).length ≤ texts.length := by
  induction texts with
  | nil => exact le_rfl
  | cons text texts ih =>
    rw [layers, List.length_cons]
    cases Coding.ofText text with
    | none => exact Nat.zero_le _
    | some k =>
      by_cases hidentity : k = .identity
      · simp only [if_pos hidentity]
        omega
      · simp only [if_neg hidentity, List.length_cons]
        omega

theorem exists_formats {ks : List Coding} (h : ∀ k ∈ ks, k ≠ .identity) :
    ∃ fs : List Format, fs.map Format.coding = ks := by
  induction ks with
  | nil => exact ⟨[], rfl⟩
  | cons k ks ih =>
    have hks := List.forall_mem_cons.1 h
    obtain ⟨fs, rfl⟩ := ih hks.2
    cases k with
    | identity => exact absurd rfl hks.1
    | gzip => exact ⟨.gzip :: fs, rfl⟩
    | deflate => exact ⟨.zlib :: fs, rfl⟩
    | br => exact ⟨.br :: fs, rfl⟩

variable {c encode} in
/-- A header is undone if and only if its first three codings, the identity left out and up to the first that is not
known, are the codings that it names from its end. -/
theorem undone_iff (laws : Lawful c encode) (header : String) :
    Undone c encode header ↔
      layers ((codingsOf header).take maxDecodeLayers) <+: layers (codingsOf header).reverse := by
  have htaken := length_layers_le ((codingsOf header).take maxDecodeLayers)
  have hcount := List.length_take_le maxDecodeLayers (codingsOf header)
  constructor
  · intro h
    obtain ⟨body, hplain, hsize⟩ := laws.plain
    obtain ⟨fs, hfs⟩ := exists_formats (mem_layers ((codingsOf header).take maxDecodeLayers))
    have hlength := congrArg List.length hfs
    rw [List.length_map] at hlength
    cases fs with
    | nil =>
      rw [← hfs]
      exact List.nil_prefix
    | cons f fs =>
      -- the layers that the code peels are put around a body that no decoder takes
      obtain ⟨result, hresult, hremoved⟩ := h.removes ((f :: fs).foldr encode body)
      have hnil : (f :: fs).foldr encode body ≠ [] := laws.encode_ne_nil f (fs.foldr encode body)
      have hcap := hsize (f :: fs) (by omega)
      rw [decodeResponseBody_eq laws, if_neg (not_or.2 ⟨hnil, Nat.not_lt.2 hcap⟩), ← hfs,
        peel_of_foldlM (foldlM_foldr laws (f :: fs) body)] at hresult
      rw [← Except.ok.inj hresult, OuterRemoved, foldlM_removeLayer_iff] at hremoved
      obtain ⟨ks, hpre, hks⟩ := hremoved
      have hknown : ∀ k ∈ ks, k ≠ .identity := fun k hk => mem_layers _ k (hpre.subset hk)
      rwa [eq_of_foldlM_foldr laws hplain hknown _ hks, hfs] at hpre
  · intro hpre
    constructor
    · intro ks body encoded hspells hlength happlied hcap
      have hmap := codingsOf_of_spells hspells
      have hall : (codingsOf header).take maxDecodeLayers = codingsOf header := by
        apply List.take_of_length_le
        have := congrArg List.length hmap
        rw [List.length_map, List.length_map] at this
        omega
      have hreverse : (codingsOf header).reverse.map Coding.ofText = ks.reverse.map some := by
        rw [List.map_reverse, hmap, List.map_reverse]
      rw [hall, layers_of_map hmap, layers_of_map hreverse, List.filter_reverse] at hpre
      rw [decodeResponseBody_eq laws, hall, layers_of_map hmap]
      split
      · next h =>
        cases h with
        | inl hnil =>
          subst hnil
          rw [happlied.eq_nil laws]
        | inr hover => omega
      · rw [hpre.eq_of_length (by rw [List.length_reverse]), peel_of_foldlM (foldlM_of_applied laws happlied)]
    · intro body
      refine ⟨_, decodeResponseBody_eq laws body header, ?_⟩
      rw [OuterRemoved, foldlM_removeLayer_iff]
      split
      · exact ⟨[], List.nil_prefix, rfl⟩
      · obtain ⟨ks, hks, hrun⟩ := peel_spec (c := c) body (layers ((codingsOf header).take maxDecodeLayers))
        exact ⟨ks, hks.trans hpre, hrun⟩

/-! ### Two layers -/

/-- The text `hello`. -/
def hello : Bytes := [104, 101, 108, 108, 111]

/-- What `gzip.compress(b"hello", mtime=0)` returns. -/
def gzipHello : Bytes :=
  [31, 139, 8, 0, 0, 0, 0, 0, 2, 3, 203, 72, 205, 201, 201, 7, 0, 134, 166, 16, 54, 5, 0, 0, 0]

/-- What `zlib.compress` makes of it. -/
def zlibGzipHello : Bytes :=
  [120, 156, 147, 239, 230, 96, 0, 1, 38, 230, 211, 30, 103, 79, 158, 100, 103, 104, 91, 38, 96, 198, 10, 20, 0, 0, 72, 1,
    5, 168]

/-- A mark for a format. -/
def Format.mark : Format → UInt8
  | .gzip => 0
  | .zlib => 1
  | .raw => 2
  | .br => 3

/-- Encoders that behave like the real ones on these bodies and put a mark before others. -/
def sampleEncode (f : Format) (body : Bytes) : Bytes :=
  if f = .gzip ∧ body = hello then gzipHello
  else if f = .zlib ∧ body = gzipHello then zlibGzipHello
  else f.mark :: body

/-- Their decoder, which raises `e` for other data. -/
def sampleDecode (f : Format) (e : CodecError) (body : Bytes) : Except CodecError Bytes :=
  if body = gzipHello then if f = .gzip then .ok hello else .error e
  else if body = zlibGzipHello then if f = .zlib then .ok gzipHello else .error e
  else if body.head? = some f.mark then .ok body.tail else .error e

/-- The decoders. -/
def sampleCodecs : Codecs where
  gzip := sampleDecode .gzip .osError
  zlib := sampleDecode .zlib .zlibError
  raw := sampleDecode .raw .zlibError
  brotli := some (sampleDecode .br .other)

theorem eq_of_sampleDecode {f : Format} {e e' : CodecError} {body : Bytes} (h : sampleDecode f e body = .error e') :
    e' = e := by
  unfold sampleDecode at h
  split at h
  · split at h
    · cases h
    · exact (Except.error.inj h).symm
  split at h
  · split at h
    · cases h
    · exact (Except.error.inj h).symm
  split at h
  · cases h
  · exact (Except.error.inj h).symm

theorem decoder_sample (f : Format) : ∃ e, sampleCodecs.decoder f = sampleDecode f e := by
  cases f with
  | gzip => exact ⟨.osError, rfl⟩
  | zlib => exact ⟨.zlibError, rfl⟩
  | raw => exact ⟨.zlibError, rfl⟩
  | br => exact ⟨.other, rfl⟩

theorem sampleDecode_encode (f g : Format) (e : CodecError) (body : Bytes) :
    sampleDecode g e (sampleEncode f body) = if g = f then .ok body else .error e := by
  have hmark : ∀ xs : Bytes, f.mark :: xs ≠ gzipHello ∧ f.mark :: xs ≠ zlibGzipHello := by
    intro xs
    constructor
    · cases f <;> exact fun h => absurd (List.cons.inj h).1 (by decide)
    · cases f <;> exact fun h => absurd (List.cons.inj h).1 (by decide)
  unfold sampleEncode
  split
  · next h =>
    rw [h.1, h.2, sampleDecode, if_pos rfl]
  split
  · next h =>
    rw [h.1, h.2, sampleDecode, if_neg (by decide), if_pos rfl]
  · rw [sampleDecode, if_neg (hmark body).1, if_neg (hmark body).2, List.head?_cons, List.tail_cons]
    by_cases hgf : g = f
    · rw [if_pos (congrArg (some ·.mark) hgf.symm), if_pos hgf]
    · rw [if_neg hgf, if_neg]
      cases f <;> cases g <;> simp_all [Format.mark]

theorem length_foldr_sampleEncode (fs : List Format) (body : Bytes) :
    (fs.foldr sampleEncode body).length ≤ body.length + 30 * fs.length := by
  induction fs with
  | nil => exact le_rfl
  | cons f fs ih =>
    have hstep : ∀ b : Bytes, (sampleEncode f b).length ≤ b.length + 30 := by
      intro b
      unfold sampleEncode
      split
      · simp [gzipHello]
      split
      · simp [zlibGzipHello]
      · simp
    have hf := hstep (fs.foldr sampleEncode body)
    rw [List.foldr_cons, List.length_cons]
    omega

theorem lawful_sample : Lawful sampleCodecs sampleEncode where
  inverts f body := by
    obtain ⟨e, he⟩ := decoder_sample f
    rw [he, sampleDecode_encode, if_pos rfl]
  rejects f g body decoded hgf := by
    obtain ⟨e, he⟩ := decoder_sample g
    rw [he, sampleDecode_encode, if_neg hgf]
    simp
  gzip_raises body e h := by
    rw [eq_of_sampleDecode h]
    decide
  zlib_raises _ _ h := eq_of_sampleDecode h
  raw_raises _ _ h := eq_of_sampleDecode h
  encode_ne_nil f body h := by
    obtain ⟨e, he⟩ := decoder_sample f
    have hdecode := sampleDecode_encode f f e body
    rw [h, if_pos rfl] at hdecode
    cases f <;> cases hdecode
  plain := by
    refine ⟨[17], fun f decoded h => ?_, fun fs hfs => ?_⟩
    · obtain ⟨e, he⟩ := decoder_sample f
      rw [he] at h
      cases f <;> cases h
    · have hlength := length_foldr_sampleEncode fs [17]
      rw [maxDecodeLayers] at hfs
      rw [maxDecodeBodyBytes]
      simp only [List.length_singleton] at hlength
      omega

/-- One coding is undone. -/
theorem undone_gzip : Undone sampleCodecs sampleEncode "gzip" :=
  (undone_iff lawful_sample "gzip").2 (by decide)

/-- A body that is compressed with gzip and then deflated is not restored. -/
theorem not_undone : Lawful sampleCodecs sampleEncode ∧ ¬ Undone sampleCodecs sampleEncode "gzip, deflate" := by
  refine ⟨lawful_sample, fun h => ?_⟩
  have hrestored := h.restores [.gzip, .deflate] hello zlibGzipHello
    ⟨["gzip".toList, " deflate".toList], by decide, .cons ⟨[], "gzip".toList, [], rfl, by simp, by decide⟩
      (.cons ⟨[' '], "deflate".toList, [], rfl, List.forall_mem_singleton.2 (by decide), by decide⟩ .nil)⟩
    (by decide) ⟨gzipHello, ⟨.gzip, rfl, rfl⟩, zlibGzipHello, ⟨.zlib, rfl, rfl⟩, rfl⟩ (by decide)
  exact absurd hrestored (by decide)

end Hledac.Transport.Decompression
