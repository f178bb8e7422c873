import Hledac.Evidence.WarcHeader
import Hledac.Lib.ChunkSearch

/-!
# Seeking in a file of records

`warc_seek` tries the places of its chunks in turn, and returns what it reads at the first of them
that gives a record under the identifier. Where a record starts, it reads that record or nothing.
So a record is found unless something is read, first, where no record starts, or a chunk ends
within the record behind a second `WARC/1.`.
-/

namespace Hledac.Evidence.Warc

open Hledac.Lib Hledac.Lib.ByteSearch Hledac.Lib.ChunkSearch Hledac.Py

/-! ### The loops -/

theorem tryRecords_eq (recordId : String) (fuel : Nat) {data : Bytes} (hm : marker <+: data)
    (hf : data.length ≤ fuel) :
    tryRecords recordId fuel data =
      match (hits marker data).findSome? (tryParseWarcRecord recordId) with
      | some r => .inl r
      | none => .inr (kept marker data) := by
  induction fuel generalizing data with
  | zero =>
    have hlen := hm.length_le
    simp only [marker, List.length_cons] at hlen
    omega
  | succ fuel ih =>
    have hhits : hits marker data = data :: hits marker (data.drop 1) :=
      hits_of_find_eq_some (by decide) (find_of_isPrefix hm)
    rw [tryRecords, hhits, List.findSome?_cons]
    cases htry : tryParseWarcRecord recordId data with
    | some r => rfl
    | none =>
      cases hnext : find marker (data.drop 1) with
      | none =>
        rw [hits_of_find_eq_none hnext, kept, hhits, hits_of_find_eq_none hnext]
        rfl
      | some next =>
        obtain ⟨hrest, hne⟩ := hits_drop_of_find (by decide) hnext
        have hpos : marker <+: (data.drop 1).drop next := (find_eq_some_iff.1 hnext).2.1
        rw [hrest] at hhits ⊢
        rw [kept_of_hits_eq_cons hhits hne]
        simp only [List.drop_drop, Nat.add_comm 1 next] at hpos ⊢
        exact ih hpos (by rw [List.length_drop]; omega)

theorem seekLoop_eq (recordId : String) (buffer : Bytes) {chunks : List Bytes}
    (hc : ∀ chunk ∈ chunks, chunk ≠ []) :
    seekLoop recordId buffer chunks =
      (attempts marker buffer chunks).findSome? (tryParseWarcRecord recordId) := by
  induction chunks generalizing buffer with
  | nil => rfl
  | cons chunk rest ih =>
    obtain ⟨hchunk, hrest⟩ := List.forall_mem_cons.1 hc
    simp only [seekLoop, if_neg hchunk, attempts, List.findSome?_append]
    cases hpos : find marker (buffer ++ chunk) with
    | none =>
      rw [kept, hits_of_find_eq_none hpos]
      exact ih _ hrest
    | some pos =>
      obtain ⟨hhits, hne⟩ := hits_drop_of_find (by decide) hpos
      have hm : marker <+: (buffer ++ chunk).drop pos := (find_eq_some_iff.1 hpos).2.1
      have hloop := tryRecords_eq recordId (buffer ++ chunk).length hm
        (by rw [List.length_drop]; omega)
      simp only [hloop, kept_congr hhits hne, hhits]
      cases (hits marker ((buffer ++ chunk).drop pos)).findSome? (tryParseWarcRecord recordId) with
      | some r => rfl
      | none => exact ih _ hrest

theorem warcSeek_eq {recordId : String} (hid : recordId ≠ "") {chunks : List Bytes}
    (hc : ∀ chunk ∈ chunks, chunk ≠ []) :
    warcSeek recordId chunks =
      (tries marker [] chunks).findSome? fun t => tryParseWarcRecord recordId t.2 := by
  have hstart : kept marker ([] : Bytes) = [] := rfl
  rw [warcSeek, if_neg hid, seekLoop_eq recordId [] hc, ← hstart, attempts_kept (by decide),
    List.findSome?_map]
  rfl

/-! ### A file of records -/

/-- The bytes of a file that consists of these records. -/
def fileBytes (records : List Record) : Bytes := records.flatMap Record.block

/-- Where the records of a file start, the first of them at `pos`. -/
def starts : Nat → List Record → List Nat
  | _, [] => []
  | pos, r :: rest => pos :: starts (pos + r.block.length) rest

/-- What is tried where no record starts, before the record from `start` to `stop` is complete. -/
def strays (records : List Record) (chunks : List Bytes) (start stop : Nat) : List Bytes :=
  (((tries marker [] chunks).takeWhile fun t => ¬ (t.1 = start ∧ stop ≤ t.1 + t.2.length)).filter
    fun t => t.1 ∉ starts 0 records).map Prod.snd

theorem fileBytes_append (xs ys : List Record) :
    fileBytes (xs ++ ys) = fileBytes xs ++ fileBytes ys := List.flatMap_append

theorem drop_fileBytes (before after : List Record) (r : Record) :
    (fileBytes (before ++ r :: after)).drop (fileBytes before).length =
      r.bytes ++ (crlf ++ fileBytes after) := by
  rw [fileBytes_append, List.drop_left, fileBytes, List.flatMap_cons, Record.block,
    List.append_assoc]
  rfl

theorem mem_starts {pos q : Nat} {records : List Record} :
    q ∈ starts pos records ↔ ∃ before s after, records = before ++ s :: after ∧
      q = pos + (fileBytes before).length := by
  induction records generalizing pos with
  | nil => simp [starts]
  | cons r rest ih =>
    rw [starts, List.mem_cons, ih]
    constructor
    · rintro (rfl | ⟨before, s, after, rfl, rfl⟩)
      · exact ⟨[], r, rest, rfl, rfl⟩
      · exact ⟨r :: before, s, after, rfl, by simp [fileBytes, Nat.add_assoc]⟩
    · rintro ⟨before, s, after, heq, rfl⟩
      cases before with
      | nil => exact .inl rfl
      | cons first before =>
        obtain ⟨rfl, rfl⟩ := List.cons.inj heq
        exact .inr ⟨before, s, after, rfl, by simp [fileBytes, Nat.add_assoc]⟩

private theorem mem_of_append_cons_eq {β : Type} {before after before' after' : List β} {r s : β}
    (h : before ++ r :: after = before' ++ s :: after') (hne : before ≠ before') :
    s ∈ before ++ after := by
  rcases List.append_eq_append_iff.1 h with ⟨m, rfl, hm⟩ | ⟨m, rfl, hm⟩
  · cases m with
    | nil => exact absurd (by simp) hne
    | cons x m =>
      obtain ⟨_, rfl⟩ := List.cons.inj hm
      simp
  · cases m with
    | nil => exact absurd (by simp) hne
    | cons x m =>
      obtain ⟨rfl, _⟩ := List.cons.inj hm
      simp

section

variable {before after : List Record} {r : Record} {recordId : String} {chunks : List Bytes}

theorem tryParse_at_start (hr : r.Readable recordId)
    (hothers : ∀ s ∈ before ++ after, ∃ other, other ≠ recordId ∧ s.Readable other)
    (hflat : chunks.flatten = fileBytes (before ++ r :: after)) {q : Nat} {a : Bytes}
    (ht : (q, a) ∈ tries marker [] chunks) (hq : q ∈ starts 0 (before ++ r :: after))
    (hstop : ¬ (q = (fileBytes before).length ∧
      (fileBytes before).length + r.bytes.length ≤ q + a.length)) :
    tryParseWarcRecord recordId a = none := by
  obtain ⟨hm, ha⟩ := prefix_of_mem_tries ht
  rw [hflat] at ha
  by_cases hown : q = (fileBytes before).length
  · have hlt : a.length < r.bytes.length := by omega
    rw [hown, drop_fileBytes] at ha
    exact tryParse_of_prefix hr recordId hm
      (List.prefix_of_prefix_length_le ha (List.prefix_append _ _) (Nat.le_of_lt hlt)) hlt
  · obtain ⟨before', s, after', heq, hpos⟩ := mem_starts.1 hq
    rw [Nat.zero_add] at hpos
    have hne : before ≠ before' := by
      rintro rfl
      exact hown hpos
    obtain ⟨other, hother, hs⟩ := hothers s (mem_of_append_cons_eq heq hne)
    rw [heq, hpos, drop_fileBytes] at ha
    exact tryParse_of_ne hs hother hm ha

theorem tryParse_complete (hr : r.Readable recordId)
    (hflat : chunks.flatten = fileBytes (before ++ r :: after)) {a : Bytes}
    (ht : ((fileBytes before).length, a) ∈ tries marker [] chunks)
    (hstop : r.bytes.length ≤ a.length) :
    tryParseWarcRecord recordId a = some (r.parsed recordId) := by
  obtain ⟨_, ha⟩ := prefix_of_mem_tries ht
  rw [hflat, drop_fileBytes] at ha
  obtain ⟨rest, rfl⟩ := List.prefix_of_prefix_length_le (List.prefix_append _ _) ha hstop
  exact tryParse_bytes hr rest

private theorem findSome?_eq_or {β γ : Type} {f : β → Option γ} {p : β → Prop} [DecidablePred p]
    {v : γ} {l : List β} (h : ∀ t ∈ l, p t → f t = some v) :
    l.findSome? f = ((l.takeWhile fun t => ¬ p t).findSome? f).or
      (if ∃ t ∈ l, p t then some v else none) := by
  induction l with
  | nil => simp
  | cons t l ih =>
    obtain ⟨ht, hl⟩ := List.forall_mem_cons.1 h
    by_cases hp : p t
    · rw [List.findSome?_cons, ht hp, List.takeWhile_cons_of_neg (by simpa using hp),
        if_pos ⟨t, List.mem_cons_self, hp⟩]
      rfl
    · have hex : (∃ s ∈ t :: l, p s) ↔ ∃ s ∈ l, p s := by simp [hp]
      rw [List.takeWhile_cons_of_pos (by simpa using hp), List.findSome?_cons, List.findSome?_cons]
      simp only [hex]
      cases f t with
      | some w => rfl
      | none => exact ih hl

private theorem findSome?_filter {β γ : Type} {f : β → Option γ} {p : β → Prop} [DecidablePred p]
    {l : List β} (h : ∀ t ∈ l, ¬ p t → f t = none) :
    (l.filter fun t => p t).findSome? f = l.findSome? f := by
  induction l with
  | nil => rfl
  | cons t l ih =>
    obtain ⟨ht, hl⟩ := List.forall_mem_cons.1 h
    by_cases hp : p t
    · rw [List.filter_cons_of_pos (by simpa using hp), List.findSome?_cons, List.findSome?_cons,
        ih hl]
    · rw [List.filter_cons_of_neg (by simpa using hp), List.findSome?_cons, ht hp, ih hl]

/-- What seeking a record of a file gives: what is read, first, where no record starts; else the
record, unless a chunk cuts it off. -/
theorem warcSeek_file (hr : r.Readable recordId)
    (hothers : ∀ s ∈ before ++ after, ∃ other, other ≠ recordId ∧ s.Readable other)
    (hc : ∀ chunk ∈ chunks, chunk ≠ [])
    (hflat : chunks.flatten = fileBytes (before ++ r :: after)) {start stop : Nat}
    (hstart : start = (fileBytes before).length) (hstop : stop = start + r.bytes.length) :
    warcSeek recordId chunks =
      ((strays (before ++ r :: after) chunks start stop).findSome?
        (tryParseWarcRecord recordId)).or
        (if Uncut marker chunks start stop then some (r.parsed recordId) else none) := by
  subst hstop hstart
  have hdrop := drop_fileBytes before after r
  rw [← hflat] at hdrop
  have hmarker : marker <+: r.bytes :=
    (marker_prefix_header r).trans (List.prefix_append _ _)
  have hpos : 7 ≤ r.bytes.length := hmarker.length_le
  have hlong : (fileBytes before).length + r.bytes.length ≤ chunks.flatten.length := by
    have hlen := congrArg List.length hdrop
    simp only [List.length_drop, List.length_append] at hlen
    omega
  have hcut : (∃ t ∈ tries marker [] chunks, t.1 = (fileBytes before).length ∧
      (fileBytes before).length + r.bytes.length ≤ t.1 + t.2.length) ↔
        Uncut marker chunks (fileBytes before).length
          ((fileBytes before).length + r.bytes.length) := by
    rw [← exists_mem_tries_iff_uncut (hdrop ▸ hmarker.trans (List.prefix_append _ _))
      (Nat.add_le_add_left hpos _) (by omega) hlong]
    constructor
    · rintro ⟨⟨_, a⟩, ha, rfl, hle⟩
      exact ⟨a, ha, hle⟩
    · rintro ⟨a, ha, hle⟩
      exact ⟨_, ha, rfl, hle⟩
  rw [warcSeek_eq hr.ne_empty hc, findSome?_eq_or (v := r.parsed recordId)
    (p := fun t => t.1 = (fileBytes before).length ∧
      (fileBytes before).length + r.bytes.length ≤ t.1 + t.2.length)]
  · simp only [hcut]
    congr 1
    rw [strays, List.findSome?_map, ← findSome?_filter (p := fun t =>
      t.1 ∉ starts 0 (before ++ r :: after))]
    · rfl
    · intro t ht hstart
      have hmem := (List.takeWhile_prefix _).subset ht
      have hopen := List.mem_takeWhile_imp ht
      exact tryParse_at_start hr hothers hflat hmem (not_not.1 hstart) (of_decide_eq_true hopen)
  · rintro ⟨_, a⟩ ha ⟨rfl, hle⟩
    exact tryParse_complete hr hflat ha (Nat.le_of_add_le_add_left hle)

end

end Hledac.Evidence.Warc
