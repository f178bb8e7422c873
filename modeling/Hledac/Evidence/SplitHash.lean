import Hledac.Evidence.Split
import Hledac.Py.Repr
import Mathlib.Data.Rat.Encodable

/-!
# What the content hash of the split writer binds

`_calculate_hash` of `evidence/_writer.py` joins seven texts by `|` and hashes the result. Two of the texts are free
and stand first, so they can take in what follows them; the texts of the payload and of the sources end by themselves.
-/

namespace Hledac.Evidence.Split

open Hledac.Lib Hledac.Py

/-- What Python's text forms promise: `bytes` and lists of strings are written as their literals, and a float's text has
no `|` and tells which float it is. -/
structure ReprLaws (c : Codecs) (printable : Char → Bool) : Prop where
  bytes : ∀ b, (c.str (.bytes b)).toList = reprBytes b
  strs : ∀ xs : List String, (c.str (.list (xs.map .str))).toList = reprStrs printable xs
  float_injective : ∀ p q, c.str (.float p) = c.str (.float q) → p = q
  float_noBar : ∀ q, '|' ∉ (c.str (.float q)).toList

namespace EvidenceEvent

/-- The text that is hashed, with the serialised payload. -/
def preimage (c : Codecs) (e : EvidenceEvent) (dumped : Bytes) : String :=
  e.eventId ++ "|" ++ e.eventType ++ "|" ++ c.str (.float e.timestamp) ++ "|" ++ c.str (.bytes dumped) ++ "|" ++
    c.str (.list (e.sourceIds.map .str)) ++ "|" ++ c.str (.float e.confidence) ++ "|" ++ e.runId

/-- `calculate_hash` with any digest in place of the cut SHA-256. -/
def hashWith (digest : String → String) (c : Codecs) (e : EvidenceEvent) : Except PyError String := do
  let dumped ← c.dumps e.payload
  return digest (e.preimage c dumped)

theorem hashWith_shortHash (c : Codecs) (e : EvidenceEvent) : e.hashWith shortHash c = e.calculateHash c := rfl

/-- The hashed text after the two free ones. -/
def tailText (c : Codecs) (e : EvidenceEvent) (dumped : Bytes) : List Char :=
  (c.str (.float e.timestamp)).toList ++ '|' :: ((c.str (.bytes dumped)).toList ++ '|' ::
    ((c.str (.list (e.sourceIds.map .str))).toList ++ '|' ::
      ((c.str (.float e.confidence)).toList ++ '|' :: e.runId.toList)))

theorem preimage_toList (c : Codecs) (e : EvidenceEvent) (dumped : Bytes) :
    (e.preimage c dumped).toList = e.eventId.toList ++ '|' :: (e.eventType.toList ++ '|' :: e.tailText c dumped) := by
  simp [preimage, tailText]

/-- The fields that the hash is to bind, the payload in its serialised form. -/
structure SameContent (c : Codecs) (e f : EvidenceEvent) : Prop where
  eventId : f.eventId = e.eventId
  eventType : f.eventType = e.eventType
  timestamp : f.timestamp = e.timestamp
  payload : c.dumps f.payload = c.dumps e.payload
  sourceIds : f.sourceIds = e.sourceIds
  confidence : f.confidence = e.confidence
  runId : f.runId = e.runId

/-- No event with other fields has the same hash. -/
def Bound (digest : String → String) (c : Codecs) (e : EvidenceEvent) : Prop :=
  ∀ (f : EvidenceEvent) (h : String), e.hashWith digest c = .ok h → f.hashWith digest c = .ok h → SameContent c e f

/-- The hashed text can be read in one way only: neither of the free texts has a bar, and nowhere in what follows them
another timestamp, payload, list of sources, confidence and run stand after a bar. -/
structure Unambiguous (c : Codecs) (e : EvidenceEvent) (dumped : Bytes) : Prop where
  eventId : '|' ∉ e.eventId.toList
  eventType : '|' ∉ e.eventType.toList
  tail : ∀ (f : EvidenceEvent) (d : Bytes), c.dumps f.payload = .ok d →
    ∀ before, e.tailText c dumped ≠ before ++ '|' :: f.tailText c d

section Laws

variable {c : Codecs} {printable : Char → Bool} {e f : EvidenceEvent} {dumped d : Bytes}

theorem tailText_injective (laws : ReprLaws c printable) (h : e.tailText c dumped = f.tailText c d) :
    f.timestamp = e.timestamp ∧ d = dumped ∧ f.sourceIds = e.sourceIds ∧ f.confidence = e.confidence ∧
      f.runId = e.runId := by
  obtain ⟨htimestamp, hpayload⟩ := eq_of_split (laws.float_noBar _) (laws.float_noBar _) h
  rw [laws.bytes, laws.bytes] at hpayload
  obtain ⟨hdumped, hsources⟩ := prefixFree_reprBytes _ _ _ _ hpayload
  rw [laws.strs, laws.strs] at hsources
  obtain ⟨hids, hconfidence⟩ := prefixFree_reprStrs printable _ _ _ _ (List.cons.inj hsources).2
  obtain ⟨htext, hrun⟩ :=
    eq_of_split (laws.float_noBar _) (laws.float_noBar _) (List.cons.inj hconfidence).2
  exact ⟨laws.float_injective _ _ (String.toList_inj.1 htimestamp), hdumped, hids,
    (laws.float_injective _ _ (String.toList_inj.1 htext)).symm, (String.toList_inj.1 hrun).symm⟩

theorem preimage_eq_of_bound {digest : String → String} (hb : e.Bound digest c)
    (hdumped : c.dumps e.payload = .ok dumped) (hd : c.dumps f.payload = .ok d)
    (h : (f.preimage c d).toList = (e.preimage c dumped).toList) : SameContent c e f := by
  apply hb f (digest (e.preimage c dumped))
  · rw [hashWith, hdumped]
    rfl
  · rw [hashWith, hd, ← String.toList_inj.1 h]
    rfl

theorem eq_of_tail {bs : List Char} (ht : ∀ before, e.tailText c dumped ≠ before ++ '|' :: f.tailText c d)
    (htype : '|' ∉ e.eventType.toList)
    (h : e.eventType.toList ++ '|' :: e.tailText c dumped = bs ++ '|' :: f.tailText c d) :
    bs = e.eventType.toList ∧ f.tailText c d = e.tailText c dumped := by
  cases eq_or_exists_of_split htype h with
  | inl heq => exact heq
  | inr hlater =>
    obtain ⟨more, -, htail⟩ := hlater
    exact absurd htail (ht more)

theorem Unambiguous.bound {digest : String → String} (hdigest : Function.Injective digest)
    (laws : ReprLaws c printable) (hdumped : c.dumps e.payload = .ok dumped) (h : e.Unambiguous c dumped) :
    e.Bound digest c := by
  intro f hash he hf
  rw [hashWith, hdumped] at he
  cases hd : c.dumps f.payload with
  | error err =>
    rw [hashWith, hd] at hf
    cases hf
  | ok d =>
    rw [hashWith, hd] at hf
    have htext : (e.preimage c dumped).toList = (f.preimage c d).toList :=
      congrArg String.toList (hdigest ((Except.ok.inj he).trans (Except.ok.inj hf).symm))
    rw [preimage_toList, preimage_toList] at htext
    have htail := h.tail f d hd
    cases eq_or_exists_of_split h.eventId htext with
    | inl heq =>
      obtain ⟨hid, hrest⟩ := heq
      obtain ⟨htype, htails⟩ := eq_of_tail htail h.eventType hrest.symm
      obtain ⟨htimestamp, rfl, hids, hconfidence, hrun⟩ := tailText_injective laws htails.symm
      exact ⟨String.toList_inj.1 hid, String.toList_inj.1 htype, htimestamp, hd.trans hdumped.symm, hids, hconfidence,
        hrun⟩
    | inr hlater =>
      -- the identifier has taken in a part of the text, the event type then stands even later
      obtain ⟨more, -, hrest⟩ := hlater
      have hsplit : e.eventType.toList ++ '|' :: e.tailText c dumped =
          (more ++ '|' :: f.eventType.toList) ++ '|' :: f.tailText c d := by
        rw [hrest, List.append_assoc, List.cons_append]
      obtain ⟨hbar, -⟩ := eq_of_tail htail h.eventType hsplit
      exact absurd (by simp [← hbar]) h.eventType

theorem Bound.unambiguous {digest : String → String} (hdumped : c.dumps e.payload = .ok dumped)
    (h : e.Bound digest c) : e.Unambiguous c dumped := by
  have hshorter : ∀ {s t : String} {as bs : List Char}, s = String.ofList as → t.toList = as ++ '|' :: bs → s ≠ t := by
    intro s t as bs hs ht heq
    have hlength := congrArg List.length (heq ▸ ht)
    rw [hs, String.toList_ofList, List.length_append, List.length_cons] at hlength
    omega
  constructor
  · intro hbar
    obtain ⟨as, bs, hid⟩ := List.append_of_mem hbar
    have hsame := preimage_eq_of_bound h hdumped (d := dumped)
      (f := { e with eventId := String.ofList as, eventType := String.ofList (bs ++ '|' :: e.eventType.toList) })
      hdumped (by simp [preimage_toList, tailText, hid])
    exact hshorter rfl hid hsame.eventId
  · intro hbar
    obtain ⟨as, bs, htype⟩ := List.append_of_mem hbar
    have hsame := preimage_eq_of_bound h hdumped (d := dumped)
      (f := { e with eventId := String.ofList (e.eventId.toList ++ '|' :: as), eventType := String.ofList bs })
      hdumped (by simp [preimage_toList, tailText, htype])
    have hlonger : (String.ofList (e.eventId.toList ++ '|' :: as)).toList = e.eventId.toList ++ '|' :: as :=
      String.toList_ofList
    exact hshorter (String.ofList_toList).symm hlonger hsame.eventId.symm
  · intro f d hd before htail
    have hsame := preimage_eq_of_bound h hdumped (d := d)
      (f := { f with eventId := e.eventId, eventType := String.ofList (e.eventType.toList ++ '|' :: before) })
      hd (by rw [preimage_toList, preimage_toList, htail]; simp [tailText])
    have hlonger : (String.ofList (e.eventType.toList ++ '|' :: before)).toList = e.eventType.toList ++ '|' :: before :=
      String.toList_ofList
    exact hshorter (String.ofList_toList).symm hlonger hsame.eventType.symm

/-- With a digest that tells texts apart, an event's hash binds its fields exactly where the hashed text can be read in
one way only. -/
theorem content_bound_iff {digest : String → String} (hdigest : Function.Injective digest)
    (laws : ReprLaws c printable) (hdumped : c.dumps e.payload = .ok dumped) :
    e.Bound digest c ↔ e.Unambiguous c dumped :=
  ⟨fun h => h.unambiguous hdumped, fun h => h.bound hdigest laws hdumped⟩

theorem count_tailText (laws : ReprLaws c printable) : (e.tailText c dumped).count '|' =
    4 + (c.str (.bytes dumped)).toList.count '|' + (c.str (.list (e.sourceIds.map .str))).toList.count '|' +
      e.runId.toList.count '|' := by
  have htimestamp := List.count_eq_zero_of_not_mem (laws.float_noBar e.timestamp)
  have hconfidence := List.count_eq_zero_of_not_mem (laws.float_noBar e.confidence)
  simp only [tailText, List.count_append, List.count_cons_self]
  omega

theorem unambiguous_of_noBar (laws : ReprLaws c printable) (hid : '|' ∉ e.eventId.toList)
    (htype : '|' ∉ e.eventType.toList) (hpayload : '|' ∉ (c.str (.bytes dumped)).toList)
    (hsources : '|' ∉ (c.str (.list (e.sourceIds.map .str))).toList) (hrun : '|' ∉ e.runId.toList) :
    e.Unambiguous c dumped := by
  refine ⟨hid, htype, fun f d _ before htail => ?_⟩
  have hcount := congrArg (List.count '|') htail
  have hfour : (f.tailText c d).count '|' = _ := count_tailText laws
  rw [count_tailText laws, List.count_append, List.count_cons_self, List.count_eq_zero_of_not_mem hpayload,
    List.count_eq_zero_of_not_mem hsources, List.count_eq_zero_of_not_mem hrun] at hcount
  omega

end Laws

/-- A text for each float: `1.0` as Python writes it. -/
def markText (q : ℚ) : List Char := if q = 1 then ['1', '.', '0'] else List.replicate (Encodable.encode q) 'i'

theorem markText_injective : Function.Injective markText := by
  intro p q h
  have hne : ∀ n, ['1', '.', '0'] ≠ List.replicate n 'i' := by
    intro n heq
    have hmem : '1' ∈ List.replicate n 'i' := heq ▸ List.mem_cons_self
    exact absurd (List.eq_of_mem_replicate hmem) (by decide)
  unfold markText at h
  split at h
  · next hp =>
    split at h
    · next hq => rw [hp, hq]
    · exact absurd h (hne _)
  · split at h
    · exact absurd h.symm (hne _)
    · have hlength := congrArg List.length h
      rw [List.length_replicate, List.length_replicate] at hlength
      exact Encodable.encode_injective hlength

theorem bar_notMem_markText (q : ℚ) : '|' ∉ markText q := by
  unfold markText
  split
  · decide
  · intro hmem
    exact absurd (List.eq_of_mem_replicate hmem) (by decide)

/-- Codecs that write `bytes` and lists of strings as their literals, and `1.0` as Python does. -/
def literalCodecs : Codecs :=
  { plainCodecs with
    str := fun
      | .float q => String.ofList (markText q)
      | .bytes b => String.ofList (reprBytes b)
      | .list xs => String.ofList (reprStrs (fun _ => true) (xs.filterMap fun
          | .str s => some s
          | _ => none))
      | value => plainCodecs.str value }

theorem reprLaws_literalCodecs : ReprLaws literalCodecs fun _ => true where
  bytes b := String.toList_ofList
  strs xs := by
    have hxs : (xs.map PyVal.str).filterMap (fun | .str s => some s | _ => none) = xs := by
      induction xs with
      | nil => rfl
      | cons x xs ih => rw [List.map_cons, List.filterMap_cons, ih]
    simp only [literalCodecs, String.toList_ofList, hxs]
  float_injective p q h := markText_injective (String.ofList_inj.1 h)
  float_noBar q := by
    have htext : (literalCodecs.str (.float q)).toList = markText q := String.toList_ofList
    rw [htext]
    exact bar_notMem_markText q

/-- A note with no sources and no payload. -/
def note : EvidenceEvent where
  eventId := "e1"
  eventType := "note"
  timestamp := 1
  payload := .dict []
  runId := "r1"
  sourceIds := []
  confidence := 1
  contentHash := ""
  seqNo := 0
  prevChainHash := ""
  chainHash := ""

theorem content_bound_note : note.Bound id literalCodecs := by
  have hdumped : literalCodecs.dumps note.payload = .ok [0x7b, 0x7d] := by decide
  have h : note.Unambiguous literalCodecs [0x7b, 0x7d] := unambiguous_of_noBar reprLaws_literalCodecs (by decide)
    (by decide) (by decide) (by decide) (by decide)
  exact (content_bound_iff Function.injective_id reprLaws_literalCodecs hdumped).2 h

/-- Whatever the digest, text can move between the identifier and the type. -/
theorem not_content_bound : ¬ ∃ digest, ∀ e : EvidenceEvent, e.Bound digest splitCodecs := by
  intro h
  obtain ⟨digest, hall⟩ := h
  let split : EvidenceEvent := { note with eventId := "a", eventType := "b|c" }
  have hdumped : splitCodecs.dumps split.payload = .ok [0x7b, 0x7d] := by decide
  exact absurd ((hall split).unambiguous hdumped).eventType (by decide)

end EvidenceEvent

end Hledac.Evidence.Split
