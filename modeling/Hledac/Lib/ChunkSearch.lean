import Hledac.Lib.ByteSearch

/-!
# Hunting a pattern through a stream of chunks

A reader that appends each chunk to a buffer, tries every place where a pattern occurs in it, and
keeps the buffer from the last of them on. `tries` says what it tries without a buffer: after each
chunk the positions where the pattern occurs in what has been read, and did not occur again behind
them in what had been read before that chunk.
-/

namespace Hledac.Lib.ChunkSearch

open ByteSearch

universe u

variable {α : Type u} [DecidableEq α] {pat : List α}

/-- The ends of a text that start with the pattern, longest first. -/
def hits (pat : List α) : List α → List (List α)
  | [] => []
  | x :: xs => if pat <+: x :: xs then (x :: xs) :: hits pat xs else hits pat xs

/-- What the reader keeps: the shortest such end, or everything when there is none. -/
def kept (pat xs : List α) : List α := (hits pat xs).getLast?.getD xs

/-- All that the reader tries, in order. -/
def attempts (pat : List α) : List α → List (List α) → List (List α)
  | _, [] => []
  | buffer, chunk :: rest =>
    hits pat (buffer ++ chunk) ++ attempts pat (kept pat (buffer ++ chunk)) rest

/-- What is tried after a chunk, each end of what has been read with its position. -/
def triesOf (pat seen chunk : List α) : List (Nat × List α) :=
  ((List.range (seen ++ chunk).length).filter fun q =>
    pat <+: (seen ++ chunk).drop q ∧ ¬ pat <:+: seen.drop (q + 1)).map
      fun q => (q, (seen ++ chunk).drop q)

/-- What is tried over all chunks, once `seen` has been read. -/
def tries (pat : List α) : List α → List (List α) → List (Nat × List α)
  | _, [] => []
  | seen, chunk :: rest => triesOf pat seen chunk ++ tries pat (seen ++ chunk) rest

theorem mem_hits (hp : pat ≠ []) {xs a : List α} :
    a ∈ hits pat xs ↔ pat <+: a ∧ a <:+ xs := by
  induction xs with
  | nil =>
    simp only [hits, List.not_mem_nil, List.suffix_nil, false_iff, not_and]
    rintro h rfl
    exact hp (List.prefix_nil.1 h)
  | cons x xs ih =>
    rw [List.suffix_cons_iff, hits]
    by_cases h : pat <+: x :: xs
    · rw [if_pos h, List.mem_cons, ih]
      constructor
      · rintro (rfl | ⟨ha, hs⟩)
        · exact ⟨h, .inl rfl⟩
        · exact ⟨ha, .inr hs⟩
      · rintro ⟨ha, rfl | hs⟩
        · exact .inl rfl
        · exact .inr ⟨ha, hs⟩
    · rw [if_neg h, ih]
      constructor
      · rintro ⟨ha, hs⟩
        exact ⟨ha, .inr hs⟩
      · rintro ⟨ha, rfl | hs⟩
        · exact absurd ha h
        · exact ⟨ha, hs⟩

theorem hits_of_find_eq_none {xs : List α} (h : find pat xs = none) : hits pat xs = [] := by
  induction xs with
  | nil => rfl
  | cons x xs ih =>
    rw [find] at h
    split at h
    · cases h
    · next hx => rw [hits, if_neg hx, ih (by simpa using h)]

/-- The first occurrence gives the longest end, and the others are found after it. -/
theorem hits_of_find_eq_some (hp : pat ≠ []) {xs : List α} {i : Nat} (h : find pat xs = some i) :
    hits pat xs = xs.drop i :: hits pat (xs.drop (i + 1)) := by
  induction xs generalizing i with
  | nil => simp [find, hp] at h
  | cons x xs ih =>
    rw [find] at h
    split at h
    · next hx =>
      obtain rfl := Option.some.inj h
      rw [hits, if_pos hx]
      rfl
    · next hx =>
      obtain ⟨j, hj, rfl⟩ := Option.map_eq_some_iff.1 h
      rw [hits, if_neg hx, ih hj]
      rfl

theorem kept_congr {xs ys : List α} (h : hits pat xs = hits pat ys) (hne : hits pat ys ≠ []) :
    kept pat xs = kept pat ys := by
  rw [kept, kept, h]
  cases hl : (hits pat ys).getLast? with
  | none => exact absurd (List.getLast?_eq_none_iff.1 hl) hne
  | some a => rfl

theorem kept_of_hits_eq_cons {xs ys a : List α} (h : hits pat xs = a :: hits pat ys)
    (hne : hits pat ys ≠ []) : kept pat xs = kept pat ys := by
  obtain ⟨b, bs, hb⟩ := List.exists_cons_of_ne_nil hne
  simp [kept, h, hb, List.getLast?_cons]

/-- What comes before the first occurrence can be skipped. -/
theorem hits_drop_of_find (hp : pat ≠ []) {xs : List α} {i : Nat} (h : find pat xs = some i) :
    hits pat xs = hits pat (xs.drop i) ∧ hits pat (xs.drop i) ≠ [] := by
  have hi : hits pat (xs.drop i) = xs.drop i :: hits pat (xs.drop (i + 1)) := by
    have h0 : find pat (xs.drop i) = some 0 := find_of_isPrefix (find_eq_some_iff.1 h).2.1
    rw [hits_of_find_eq_some hp h0, List.drop_drop, List.drop_drop, Nat.zero_add, Nat.add_zero]
  constructor
  · rw [hi, hits_of_find_eq_some hp h]
  · rw [hi]
    exact List.cons_ne_nil _ _

/-- The pattern does not occur after position `q`, and occurs there unless that is the start. -/
def LastAt (pat xs : List α) (q : Nat) : Prop :=
  (∀ j, q < j → ¬ pat <+: xs.drop j) ∧ (q = 0 ∨ pat <+: xs.drop q)

omit [DecidableEq α] in
theorem LastAt.unique {xs : List α} {p q : Nat} (hp : LastAt pat xs p) (hq : LastAt pat xs q) :
    p = q := by
  rcases Nat.lt_trichotomy p q with h | h | h
  · rcases hq.2 with rfl | hpat
    · omega
    · exact absurd hpat (hp.1 q h)
  · exact h
  · rcases hp.2 with rfl | hpat
    · omega
    · exact absurd hpat (hq.1 p h)

omit [DecidableEq α] in
/-- The last occurrence is within the text. -/
theorem LastAt.le_length (hp : pat ≠ []) {xs : List α} {q : Nat} (h : LastAt pat xs q) :
    q ≤ xs.length := by
  rcases h.2 with rfl | hpat
  · exact Nat.zero_le _
  · rcases Nat.lt_or_ge xs.length q with hlt | hle
    · rw [List.drop_eq_nil_of_le (Nat.le_of_lt hlt)] at hpat
      exact absurd (List.prefix_nil.1 hpat) hp
    · exact hle

theorem exists_kept_eq_drop (hp : pat ≠ []) (xs : List α) :
    ∃ q, LastAt pat xs q ∧ kept pat xs = xs.drop q := by
  induction xs with
  | nil =>
    refine ⟨0, ⟨fun j _ h => ?_, .inl rfl⟩, rfl⟩
    rw [List.drop_nil] at h
    exact hp (List.prefix_nil.1 h)
  | cons x xs ih =>
    cases hx : (hits pat xs).getLast? with
    | some a =>
      obtain ⟨q, ⟨hlast, hq⟩, hk⟩ := ih
      have hka : kept pat xs = a := by simp [kept, hx]
      have ha : pat <+: a := ((mem_hits hp).1 (List.mem_of_getLast? hx)).1
      have hpos : pat <+: xs.drop q := by rwa [← hk, hka]
      refine ⟨q + 1, ⟨fun j hj => ?_, .inr hpos⟩, ?_⟩
      · cases j with
        | zero => omega
        | succ j => exact hlast j (by omega)
      · rw [List.drop_succ_cons, ← hk, hka, kept, hits]
        split <;> simp [List.getLast?_cons, hx]
    | none =>
      have hnil : hits pat xs = [] := List.getLast?_eq_none_iff.1 hx
      refine ⟨0, ⟨fun j hj h => ?_, .inl rfl⟩, ?_⟩
      · cases j with
        | zero => omega
        | succ j =>
          have hmem : xs.drop j ∈ hits pat xs := (mem_hits hp).2 ⟨h, List.drop_suffix j xs⟩
          rw [hnil] at hmem
          exact absurd hmem List.not_mem_nil
      · rw [kept, hits, hnil]
        split <;> rfl

/-- Dropping what is not kept does not change what is kept later. -/
theorem kept_append (hp : pat ≠ []) (seen chunk : List α) :
    kept pat (kept pat seen ++ chunk) = kept pat (seen ++ chunk) := by
  obtain ⟨q, hq, hk⟩ := exists_kept_eq_drop hp seen
  obtain ⟨r, hr, hk'⟩ := exists_kept_eq_drop hp (seen.drop q ++ chunk)
  obtain ⟨t, ht, hk''⟩ := exists_kept_eq_drop hp (seen ++ chunk)
  have hdrop : (seen ++ chunk).drop q = seen.drop q ++ chunk :=
    List.drop_append_of_le_length (hq.le_length hp)
  have hqr : LastAt pat (seen ++ chunk) (q + r) := by
    constructor
    · intro j hj
      have := hr.1 (j - q) (by omega)
      rwa [← hdrop, List.drop_drop, show q + (j - q) = j by omega] at this
    · rcases hr.2 with rfl | hpat
      · rcases hq.2 with rfl | hpat
        · exact .inl rfl
        · right
          rw [Nat.add_zero, hdrop]
          exact hpat.trans (List.prefix_append _ _)
      · right
        rwa [← List.drop_drop, hdrop]
  rw [hk, hk', hk'', ht.unique hqr, ← List.drop_drop, hdrop]

/-- Every end from a position on, filtered. -/
theorem hits_drop {xs : List α} {p : Nat} (h : p ≤ xs.length) :
    hits pat (xs.drop p) =
      ((List.range xs.length).filter fun q => p ≤ q ∧ pat <+: xs.drop q).map xs.drop := by
  have hall : ∀ ys : List α, hits pat ys =
      ((List.range ys.length).filter fun q => pat <+: ys.drop q).map ys.drop := by
    intro ys
    induction ys with
    | nil => rfl
    | cons y ys ih =>
      rw [hits, ih, List.length_cons, List.range_succ_eq_map, List.filter_cons, List.filter_map,
        List.drop_zero]
      by_cases hy : pat <+: y :: ys
      · rw [if_pos hy, if_pos (decide_eq_true hy), List.map_cons, List.map_map]
        rfl
      · rw [if_neg hy, if_neg (by simpa using hy), List.map_map]
        rfl
  have hlow : ((List.range p).filter fun q => p ≤ q ∧ pat <+: xs.drop q) = [] := by
    rw [List.filter_eq_nil_iff]
    intro q hq
    have := List.mem_range.1 hq
    simp only [decide_eq_true_eq, not_and]
    omega
  obtain ⟨n, hn⟩ := Nat.exists_eq_add_of_le h
  rw [hall, List.length_drop, hn, List.range_add, List.filter_append, hlow, List.nil_append,
    List.filter_map, List.map_map, Nat.add_sub_cancel_left]
  simp [Function.comp_def]

/-- The buffer leaves out nothing that is tried. -/
theorem hits_kept_append (hp : pat ≠ []) (seen chunk : List α) :
    hits pat (kept pat seen ++ chunk) = (triesOf pat seen chunk).map Prod.snd := by
  obtain ⟨p, hpl, hk⟩ := exists_kept_eq_drop hp seen
  have hle : p ≤ seen.length := hpl.le_length hp
  have hfilter : ∀ q, (p ≤ q ∧ pat <+: (seen ++ chunk).drop q) ↔
      (pat <+: (seen ++ chunk).drop q ∧ ¬ pat <:+: seen.drop (q + 1)) := by
    intro q
    rw [isInfix_iff_exists_drop]
    constructor
    · rintro ⟨hpq, hq⟩
      refine ⟨hq, ?_⟩
      rintro ⟨j, hj⟩
      rw [List.drop_drop] at hj
      exact hpl.1 _ (by omega) hj
    · rintro ⟨hq, hlast⟩
      refine ⟨Nat.le_of_not_lt fun hlt => hlast ⟨p - (q + 1), ?_⟩, hq⟩
      rw [List.drop_drop, show q + 1 + (p - (q + 1)) = p by omega]
      exact hpl.2.resolve_left (by omega)
  rw [hk, ← List.drop_append_of_le_length hle,
    hits_drop (Nat.le_trans hle (by simp)), triesOf, List.map_map]
  simp only [hfilter]
  rfl

theorem attempts_kept (hp : pat ≠ []) (seen : List α) (chunks : List (List α)) :
    attempts pat (kept pat seen) chunks = (tries pat seen chunks).map Prod.snd := by
  induction chunks generalizing seen with
  | nil => rfl
  | cons chunk rest ih =>
    rw [attempts, tries, kept_append hp, ih, hits_kept_append hp, List.map_append]

/-- What is tried: an end of what some chunk completes, not cut off before that chunk. -/
theorem mem_tries {seen : List α} {chunks : List (List α)} {q : Nat} {a : List α} :
    (q, a) ∈ tries pat seen chunks ↔
      ∃ before chunk after, chunks = before ++ chunk :: after ∧
        a = (seen ++ before.flatten ++ chunk).drop q ∧
        q < (seen ++ before.flatten ++ chunk).length ∧ pat <+: a ∧
        ¬ pat <:+: (seen ++ before.flatten).drop (q + 1) := by
  induction chunks generalizing seen with
  | nil => simp [tries]
  | cons chunk rest ih =>
    have hof : (q, a) ∈ triesOf pat seen chunk ↔
        a = (seen ++ chunk).drop q ∧ q < (seen ++ chunk).length ∧ pat <+: a ∧
          ¬ pat <:+: seen.drop (q + 1) := by
      simp only [triesOf, List.mem_map, List.mem_filter, List.mem_range, decide_eq_true_eq,
        Prod.mk.injEq]
      constructor
      · rintro ⟨_, ⟨hlt, hpat, hin⟩, rfl, rfl⟩
        exact ⟨rfl, hlt, hpat, hin⟩
      · rintro ⟨rfl, hlt, hpat, hin⟩
        exact ⟨q, ⟨hlt, hpat, hin⟩, rfl, rfl⟩
    rw [tries, List.mem_append, hof, ih]
    constructor
    · rintro (h | ⟨before, next, after, rfl, h⟩)
      · exact ⟨[], chunk, rest, rfl, by simpa using h⟩
      · exact ⟨chunk :: before, next, after, rfl, by simpa using h⟩
    · rintro ⟨before, next, after, hc, h⟩
      cases before with
      | nil =>
        obtain ⟨rfl, rfl⟩ := List.cons.inj hc
        exact .inl (by simpa using h)
      | cons first before =>
        obtain ⟨rfl, rfl⟩ := List.cons.inj hc
        exact .inr ⟨before, next, after, rfl, by simpa using h⟩

/-! ### When a piece is tried as a whole -/

/-- Before the chunk that completes the piece from `start` to `stop`, the pattern does not occur
behind its start. -/
def Uncut (pat : List α) (chunks : List (List α)) (start stop : Nat) : Prop :=
  ∀ n < chunks.length, (chunks.take n).flatten.length < stop →
    ¬ pat <:+: (chunks.take n).flatten.drop (start + 1)

instance (pat : List α) (chunks : List (List α)) (start stop : Nat) :
    Decidable (Uncut pat chunks start stop) :=
  inferInstanceAs (Decidable (∀ _ < _, _ → _))

/-- What is tried at a position begins what stands there. -/
theorem prefix_of_mem_tries {chunks : List (List α)} {q : Nat} {a : List α}
    (h : (q, a) ∈ tries pat [] chunks) : pat <+: a ∧ a <+: chunks.flatten.drop q := by
  obtain ⟨before, chunk, after, rfl, rfl, _, hpat, _⟩ := mem_tries.1 h
  refine ⟨hpat, ?_⟩
  rw [List.nil_append]
  apply List.IsPrefix.drop
  exact ⟨after.flatten, by simp⟩

omit [DecidableEq α] in
/-- Some chunk completes a piece. -/
private theorem exists_completing {chunks : List (List α)} {stop : Nat} (hpos : 0 < stop)
    (hstop : stop ≤ chunks.flatten.length) :
    ∃ before chunk after, chunks = before ++ chunk :: after ∧ before.flatten.length < stop ∧
      stop ≤ (before.flatten ++ chunk).length := by
  induction chunks using List.reverseRecOn with
  | nil => simp at hstop; omega
  | append_singleton chunks chunk ih =>
    rcases Nat.lt_or_ge chunks.flatten.length stop with hlt | hge
    · exact ⟨chunks, chunk, [], rfl, hlt, by simpa using hstop⟩
    · obtain ⟨before, next, after, rfl, h⟩ := ih hge
      exact ⟨before, next, after ++ [chunk], by simp, h⟩

/-- A piece that starts with the pattern is tried as a whole exactly when it is not cut off. -/
theorem exists_mem_tries_iff_uncut {chunks : List (List α)} {start stop : Nat}
    (hpat : pat <+: chunks.flatten.drop start) (hlen : start + pat.length ≤ stop)
    (hlt : start < stop) (hstop : stop ≤ chunks.flatten.length) :
    (∃ a, (start, a) ∈ tries pat [] chunks ∧ stop ≤ start + a.length) ↔
      Uncut pat chunks start stop := by
  constructor
  · rintro ⟨a, ha, hle⟩ n hn hshort hin
    obtain ⟨before, chunk, after, rfl, rfl, hq, _, hlast⟩ := mem_tries.1 ha
    rw [List.nil_append] at hq hle hlast
    rw [List.length_drop] at hle
    -- the chunks before this one are among those that came before the completing chunk
    have hnb : n ≤ before.length := by
      by_contra hlong
      have hpre : before ++ [chunk] <+: (before ++ chunk :: after).take n := by
        rw [List.prefix_take_iff]
        exact ⟨⟨after, by simp⟩, by simp; omega⟩
      have hflat := hpre.flatten.length_le
      rw [List.flatten_append, List.flatten_singleton] at hflat
      omega
    have hpre : ((before ++ chunk :: after).take n).flatten <+: before.flatten := by
      rw [List.take_append_of_le_length hnb]
      exact (List.take_prefix n before).flatten
    exact hlast (hin.trans (hpre.drop (start + 1)).isInfix)
  · intro huncut
    obtain ⟨before, chunk, after, rfl, hshort, hfull⟩ := exists_completing (by omega) hstop
    have hpre : before.flatten ++ chunk <+: (before ++ chunk :: after).flatten :=
      ⟨after.flatten, by simp⟩
    have hlast : ¬ pat <:+: before.flatten.drop (start + 1) := by
      have h := huncut before.length (by simp)
      rw [List.take_left] at h
      exact h hshort
    refine ⟨(before.flatten ++ chunk).drop start, mem_tries.2 ⟨before, chunk, after, rfl, ?_, ?_,
      ?_, ?_⟩, ?_⟩
    · rw [List.nil_append]
    · rw [List.nil_append]
      omega
    · refine List.prefix_of_prefix_length_le hpat (hpre.drop start) ?_
      rw [List.length_drop]
      omega
    · exact hlast
    · rw [List.length_drop]
      omega

end Hledac.Lib.ChunkSearch
