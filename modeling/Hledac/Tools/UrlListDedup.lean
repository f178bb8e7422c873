import Mathlib.Data.Finset.Lattice.Lemmas
import Hledac.Lib.Partial
import Hledac.Tools.UrlDedup

/-!
# Dedup of a list of URLs

`dedupe_url_list` over an exact set filter, and the normalisation of the list that runs before it;
`url_dedup.py:916-1291`. Three loops decide what is new: over the answers of `add_batch`, over plain
membership, and one URL at a time. Normalisation decides what they see: the batch of the Rust engine leaves
out what it cannot read, and the keys then no longer stand beside their URLs.
-/

namespace Hledac.Tools.UrlListDedup

open Hledac.Py Hledac.Lib

/-- The Rust engine over the `url` crate, where it is installed: `normalize` raises (`none`) where
`Url::parse` refuses the text. What it returns begins with a scheme. -/
structure UrlEngine where
  normalize : List Char → Option (List Char)
  nonempty : ∀ url key, normalize url = some key → key ≠ []

/-- `canonicalize_batch`, which leaves out what is refused; `url_engine.rs:164-168`. -/
def UrlEngine.canonicalizeBatch (engine : UrlEngine) (urls : List (List Char)) : List (List Char) :=
  urls.filterMap engine.normalize

/-- A set filter. `add_batch` is optional for a strategy; without it the call raises `AttributeError`. -/
structure Strategy where
  members : Finset (List Char)
  hasAddBatch : Bool
deriving DecidableEq

/-- What a call returns, and the filter it leaves. -/
structure Outcome where
  unique : List (List Char)
  dropped : Nat
  filter : Option Strategy
deriving DecidableEq

/-- `_NORMALIZE_PARALLEL_THRESHOLD`. -/
def normalizeParallelThreshold : Nat := 256

section Model

variable (t : UrlTables) (engine : Option UrlEngine)

/-- `normalize_url`: the Rust engine, and the Python path where there is none or it raises. -/
def normalizeUrl (url : List Char) : Option (List Char) :=
  match engine.bind (·.normalize url) with
  | some key => some key
  | none => UrlDedup.normalizeUrl t url

/-- `normalize_url_parallel`. The pool maps in order and raises what the first URL to fail raised;
`url_dedup.py:916-946`. -/
def normalizeUrlParallel (urls : List (List Char)) (normalize : Bool) : Option (List (List Char)) :=
  if urls.length < normalizeParallelThreshold ∨ normalize = false then
    if normalize then urls.mapM (normalizeUrl t engine) else some urls
  else
    match engine with
    | some engine => some (engine.canonicalizeBatch urls)
    | none => urls.mapM (normalizeUrl t none)

/-- `add_batch` of a set: whether each item was new, in order, and the set with all of them. -/
def addBatch (members : Finset (List Char)) : List (List Char) → List Bool × Finset (List Char)
  | [] => ([], members)
  | item :: items =>
    let rest := addBatch (insert item members) items
    (decide (item ∉ members) :: rest.1, rest.2)

/-- The locals of a loop: `unique`, `dropped` and `seen_in_input`. -/
structure Scan where
  unique : List (List Char)
  dropped : Nat
  seen : Finset (List Char)

def Scan.start : Scan := ⟨[], 0, ∅⟩

/-- One turn of the loop over the batch results. -/
def flaggedStep (scan : Scan) (rawUrl key : List Char) (isNew : Bool) : Scan :=
  if rawUrl = [] then { scan with dropped := scan.dropped + 1 }
  else if key = [] then { scan with unique := scan.unique ++ [rawUrl] }
  else if key ∈ scan.seen then { scan with dropped := scan.dropped + 1 }
  else if isNew = false then { scan with dropped := scan.dropped + 1, seen := insert key scan.seen }
  else { scan with unique := scan.unique ++ [rawUrl], seen := insert key scan.seen }

/-- The loop over the batch results; `url_dedup.py:1243-1261`. -/
def flaggedLoop (urls keys : List (List Char)) (batchResults : List Bool) : Scan :=
  (urls.zip (keys.zip batchResults)).foldl (fun scan item => flaggedStep scan item.1 item.2.1 item.2.2) .start

/-- One turn of the loop that asks and fills the filter itself. -/
def itemStep (addToFilter : Bool) (state : Scan × Finset (List Char)) (rawUrl key : List Char) :
    Scan × Finset (List Char) :=
  let (scan, members) := state
  if rawUrl = [] then ({ scan with dropped := scan.dropped + 1 }, members)
  else if key = [] then ({ scan with unique := scan.unique ++ [rawUrl] }, members)
  else if key ∈ scan.seen then ({ scan with dropped := scan.dropped + 1 }, members)
  else if key ∈ members then ({ scan with dropped := scan.dropped + 1, seen := insert key scan.seen }, members)
  else ({ scan with unique := scan.unique ++ [rawUrl], seen := insert key scan.seen },
    if addToFilter then insert key members else members)

/-- The loop over the URLs one at a time; `url_dedup.py:1267-1289`. -/
def itemLoop (addToFilter : Bool) (members : Finset (List Char)) (urls keys : List (List Char)) :
    Scan × Finset (List Char) :=
  (urls.zip keys).foldl (fun state item => itemStep addToFilter state item.1 item.2) (.start, members)

/-- The loop without a filter. -/
def naiveLoop (items : List (List Char × List Char)) : Scan :=
  items.foldl (fun scan item =>
    if item.2 ∉ scan.seen then
      { scan with unique := scan.unique ++ [item.1], seen := insert item.2 scan.seen }
    else scan) .start

/-- `dedupe_url_list`; `none` where it raises; `url_dedup.py:1164-1291`. -/
def dedupeUrlList (urls : List (List Char)) (filterStrategy : Option Strategy) (normalize addToFilter : Bool) :
    Option Outcome :=
  if urls = [] then some ⟨[], 0, filterStrategy⟩
  else
    match filterStrategy with
    | none =>
      match if normalize then urls.mapM (normalizeUrl t engine) else some urls with
      | none => none
      | some keys =>
        let scan := naiveLoop (urls.zip keys)
        some ⟨scan.unique, urls.length - scan.unique.length, none⟩
    | some strategy =>
      match normalizeUrlParallel t engine urls normalize with
      | none => none
      | some keys =>
        if addToFilter = true ∧ strategy.hasAddBatch = false then
          let (scan, members) := itemLoop addToFilter strategy.members urls keys
          some ⟨scan.unique, scan.dropped, some { strategy with members }⟩
        else
          let (batchResults, members) :=
            if addToFilter then addBatch strategy.members keys
            else (keys.map fun key => decide (key ∉ strategy.members), strategy.members)
          let scan := flaggedLoop urls keys batchResults
          some ⟨scan.unique, scan.dropped, some { strategy with members }⟩

/-! ### What it is for -/

/-- The key of a URL. -/
def keyOf (normalize : Bool) (url : List Char) : Option (List Char) :=
  if normalize then normalizeUrl t engine url else some url

end Model

/-- Of URLs with their keys, those whose key is not known and no earlier URL has. -/
def fresh (known : Finset (List Char)) : List (List Char × List Char) → List (List Char × List Char)
  | [] => []
  | item :: items => (if item.2 ∈ known then [] else [item]) ++ fresh (insert item.2 known) items

/-- What the filter holds when the URLs returned are in it. -/
def filled (members : Finset (List Char)) (returned : List (List Char × List Char)) (addToFilter : Bool) :
    Finset (List Char) :=
  if addToFilter then members ∪ (returned.map Prod.snd).toFinset else members

/-- Every URL has its key; the URLs with a fresh one are returned, the others are counted, the filter then
holds the keys of what is returned as well, and the path taken makes no difference. -/
def DedupesExactly (t : UrlTables) (engine : Option UrlEngine) (urls : List (List Char))
    (members : Finset (List Char)) (normalize addToFilter : Bool) : Prop :=
  ∃ keys, urls.mapM (keyOf t engine normalize) = some keys ∧
    ∀ hasAddBatch, dedupeUrlList t engine urls (some ⟨members, hasAddBatch⟩) normalize addToFilter =
      some ⟨(fresh members (urls.zip keys)).map Prod.fst, urls.length - (fresh members (urls.zip keys)).length,
        some ⟨filled members (fresh members (urls.zip keys)) addToFilter, hasAddBatch⟩⟩

/-- The inputs that are handled: no port is malformed where the Python path is taken, the engine reads all of
a batch, and the key of an empty URL is known by then. -/
structure Regular (t : UrlTables) (engine : Option UrlEngine) (urls : List (List Char))
    (members : Finset (List Char)) (normalize : Bool) : Prop where
  ports : normalize = true → ∀ url ∈ urls, engine.bind (·.normalize url) = none →
    ∀ split, t.parser.urlsplit url = some split → UrlParser.port split.netloc ≠ none
  batch : normalize = true → normalizeParallelThreshold ≤ urls.length → ∀ e, engine = some e →
    ∀ url ∈ urls, e.normalize url ≠ none
  blank : ∀ before after, urls = before ++ [] :: after → ∃ key, keyOf t engine normalize [] = some key ∧
    (key ∈ members ∨ ∃ url ∈ before, keyOf t engine normalize url = some key)

/-! ### One turn and a whole loop -/

/-- From `scan` to `scan'` these were returned, of so many URLs. -/
structure Returns (scan scan' : Scan) (returned : List (List Char × List Char)) (count : Nat) : Prop where
  unique : scan'.unique = scan.unique ++ returned.map Prod.fst
  dropped : scan'.dropped + returned.length = scan.dropped + count

/-- Empty URLs have a known key, and the others a key that is not empty. -/
def Handled (known : Finset (List Char)) : List (List Char × List Char) → Prop
  | [] => True
  | item :: items => (item.1 = [] → item.2 ∈ known) ∧ (item.1 ≠ [] → item.2 ≠ []) ∧
      Handled (insert item.2 known) items

/-- Answers that say of each key whether it is new: to all that came before it, or to the filter. -/
inductive Answers (members : Finset (List Char)) : Finset (List Char) → List (List Char) → List Bool → Prop
  | nil (known : Finset (List Char)) : Answers members known [] []
  | cons {known : Finset (List Char)} {key : List Char} {keys : List (List Char)} {isNew : Bool}
    {flags : List Bool} (answer : isNew = decide (key ∉ known) ∨ isNew = decide (key ∉ members))
    (rest : Answers members (insert key known) keys flags) :
    Answers members known (key :: keys) (isNew :: flags)

section Loops

variable {scan a b c : Scan} {known members seen : Finset (List Char)} {rawUrl key : List Char}
  {items returned more : List (List Char × List Char)} {isNew addToFilter : Bool} {n m : Nat}

theorem Returns.nil (scan : Scan) : Returns scan scan [] 0 := ⟨by simp, rfl⟩

theorem Returns.trans (hab : Returns a b returned n) (hbc : Returns b c more m) :
    Returns a c (returned ++ more) (n + m) where
  unique := by rw [hbc.unique, hab.unique, List.map_append, List.append_assoc]
  dropped := by
    have hfirst := hab.dropped
    have hsecond := hbc.dropped
    rw [List.length_append]
    omega

theorem Returns.drop (scan : Scan) (seen : Finset (List Char)) :
    Returns scan ⟨scan.unique, scan.dropped + 1, seen⟩ [] 1 := ⟨by simp, rfl⟩

theorem Returns.keep (scan : Scan) (seen : Finset (List Char)) (rawUrl key : List Char) :
    Returns scan ⟨scan.unique ++ [rawUrl], scan.dropped, seen⟩ [(rawUrl, key)] 1 := ⟨rfl, rfl⟩

/-- What one URL adds to the returned ones. -/
def freshOne (known : Finset (List Char)) (item : List Char × List Char) : List (List Char × List Char) :=
  if item.2 ∈ known then [] else [item]

theorem freshOne_of_mem (h : key ∈ known) : freshOne known (rawUrl, key) = [] := if_pos h

theorem freshOne_of_notMem (h : key ∉ known) : freshOne known (rawUrl, key) = [(rawUrl, key)] := if_neg h

theorem fresh_cons (known : Finset (List Char)) (item : List Char × List Char) :
    fresh known (item :: items) = freshOne known item ++ fresh (insert item.2 known) items := rfl

theorem flaggedStep_returns (hblank : rawUrl = [] → key ∈ known) (hkey : rawUrl ≠ [] → key ≠ [])
    (hknown : known = scan.seen ∪ members)
    (hnew : isNew = decide (key ∉ known) ∨ isNew = decide (key ∉ members)) :
    Returns scan (flaggedStep scan rawUrl key isNew) (freshOne known (rawUrl, key)) 1 ∧
      insert key known = (flaggedStep scan rawUrl key isNew).seen ∪ members := by
  by_cases hraw : rawUrl = []
  · rw [flaggedStep, if_pos hraw, freshOne_of_mem (hblank hraw), Finset.insert_eq_of_mem (hblank hraw)]
    exact ⟨.drop _ _, hknown⟩
  rw [flaggedStep, if_neg hraw, if_neg (hkey hraw)]
  by_cases hseen : key ∈ scan.seen
  · have hmem : key ∈ known := hknown ▸ Finset.mem_union_left _ hseen
    rw [if_pos hseen, freshOne_of_mem hmem, Finset.insert_eq_of_mem hmem]
    exact ⟨.drop _ _, hknown⟩
  -- outside `seen_in_input` both kinds of answer say the same
  have hanswer : isNew = decide (key ∉ known) := by
    cases hnew with
    | inl h => exact h
    | inr h => rw [h, decide_eq_decide, hknown, Finset.mem_union, or_iff_right hseen]
  have hinsert : insert key known = insert key scan.seen ∪ members := by rw [hknown, Finset.insert_union]
  rw [if_neg hseen, hanswer]
  by_cases hmem : key ∈ known
  · rw [if_pos (decide_eq_false (not_not_intro hmem)), freshOne_of_mem hmem]
    exact ⟨.drop _ _, hinsert⟩
  · rw [if_neg (by rw [decide_eq_true hmem]; exact Bool.noConfusion), freshOne_of_notMem hmem]
    exact ⟨.keep _ _ _ _, hinsert⟩

theorem flagged_fold {flags : List Bool} (hanswers : Answers members known (items.map Prod.snd) flags)
    (hitems : Handled known items) (hknown : known = scan.seen ∪ members) :
    Returns scan (((items.map Prod.fst).zip ((items.map Prod.snd).zip flags)).foldl
      (fun scan item => flaggedStep scan item.1 item.2.1 item.2.2) scan) (fresh known items) items.length := by
  induction items generalizing scan known flags with
  | nil => exact .nil _
  | cons item items ih =>
    cases hanswers with
    | cons answer rest =>
      obtain ⟨hblank, hkey, hrest⟩ := hitems
      obtain ⟨hturn, hseen⟩ := flaggedStep_returns hblank hkey hknown answer
      have hloop := hturn.trans (ih rest hrest hseen)
      rw [Nat.add_comm] at hloop
      exact hloop

theorem filled_append (members : Finset (List Char)) (returned more : List (List Char × List Char))
    (addToFilter : Bool) :
    filled (filled members returned addToFilter) more addToFilter = filled members (returned ++ more) addToFilter := by
  cases addToFilter with
  | false => rfl
  | true => simp only [filled, if_true, List.map_append, List.toFinset_append, Finset.union_assoc]

theorem itemStep_returns (addToFilter : Bool) (hblank : rawUrl = [] → key ∈ known) (hkey : rawUrl ≠ [] → key ≠ [])
    (hknown : known = scan.seen ∪ members) :
    Returns scan (itemStep addToFilter (scan, members) rawUrl key).1 (freshOne known (rawUrl, key)) 1 ∧
      (itemStep addToFilter (scan, members) rawUrl key).2 =
        filled members (freshOne known (rawUrl, key)) addToFilter ∧
      insert key known = (itemStep addToFilter (scan, members) rawUrl key).1.seen ∪
        (itemStep addToFilter (scan, members) rawUrl key).2 := by
  have hnone : filled members [] addToFilter = members := by
    cases addToFilter with
    | false => rfl
    | true => simp only [filled, if_true, List.map_nil, List.toFinset_nil, Finset.union_empty]
  by_cases hraw : rawUrl = []
  · simp only [itemStep, if_pos hraw, freshOne_of_mem (hblank hraw), Finset.insert_eq_of_mem (hblank hraw), hnone]
    exact ⟨.drop _ _, trivial, hknown⟩
  simp only [itemStep, if_neg hraw, if_neg (hkey hraw)]
  by_cases hseen : key ∈ scan.seen
  · have hmem : key ∈ known := hknown ▸ Finset.mem_union_left _ hseen
    simp only [if_pos hseen, freshOne_of_mem hmem, Finset.insert_eq_of_mem hmem, hnone]
    exact ⟨.drop _ _, trivial, hknown⟩
  have hiff : key ∈ members ↔ key ∈ known := by rw [hknown, Finset.mem_union, or_iff_right hseen]
  have hinsert : insert key known = insert key scan.seen ∪ members := by rw [hknown, Finset.insert_union]
  by_cases hmem : key ∈ known
  · simp only [if_neg hseen, if_pos (hiff.2 hmem), freshOne_of_mem hmem, hnone]
    exact ⟨.drop _ _, trivial, hinsert⟩
  · simp only [if_neg hseen, if_neg (mt hiff.1 hmem), freshOne_of_notMem hmem]
    refine ⟨.keep _ _ _ _, ?_, ?_⟩
    · cases addToFilter with
      | false => rfl
      | true => simp [filled]
    · cases addToFilter with
      | false => exact hinsert
      | true =>
        rw [hinsert, if_pos rfl]
        ext k
        simp only [Finset.mem_union, Finset.mem_insert]
        tauto

theorem item_fold (addToFilter : Bool) (hitems : Handled known items) (hknown : known = scan.seen ∪ members) :
    Returns scan (((items.map Prod.fst).zip (items.map Prod.snd)).foldl
        (fun state item => itemStep addToFilter state item.1 item.2) (scan, members)).1 (fresh known items)
          items.length ∧
      (((items.map Prod.fst).zip (items.map Prod.snd)).foldl
        (fun state item => itemStep addToFilter state item.1 item.2) (scan, members)).2 =
          filled members (fresh known items) addToFilter := by
  induction items generalizing scan known members with
  | nil =>
    refine ⟨.nil _, ?_⟩
    cases addToFilter with
    | false => rfl
    | true => simp [filled, fresh]
  | cons item items ih =>
    obtain ⟨hblank, hkey, hrest⟩ := hitems
    obtain ⟨hturn, hfilter, hseen⟩ := itemStep_returns addToFilter hblank hkey hknown
    obtain ⟨hloop, hlast⟩ := ih hrest hseen
    have hall := hturn.trans hloop
    rw [Nat.add_comm] at hall
    refine ⟨hall, hlast.trans ?_⟩
    rw [hfilter, filled_append, fresh_cons]

theorem flagged_nonempty {triples : List (List Char × List Char × Bool)} (h : [] ∉ scan.unique) :
    [] ∉ (triples.foldl (fun scan item => flaggedStep scan item.1 item.2.1 item.2.2) scan).unique := by
  induction triples generalizing scan with
  | nil => exact h
  | cons item triples ih =>
    apply ih
    show [] ∉ (flaggedStep scan item.1 item.2.1 item.2.2).unique
    by_cases hraw : item.1 = []
    · rw [flaggedStep, if_pos hraw]
      exact h
    · have hkept : [] ∉ scan.unique ++ [item.1] := by
        rw [List.mem_append, List.mem_singleton]
        exact fun hmem => hmem.elim h fun heq => hraw heq.symm
      rw [flaggedStep, if_neg hraw]
      split_ifs
      · exact hkept
      · exact h
      · exact h
      · exact hkept

theorem flagged_count (triples : List (List Char × List Char × Bool)) (scan : Scan) :
    (triples.foldl (fun scan item => flaggedStep scan item.1 item.2.1 item.2.2) scan).unique.length +
        (triples.foldl (fun scan item => flaggedStep scan item.1 item.2.1 item.2.2) scan).dropped =
      scan.unique.length + scan.dropped + triples.length := by
  induction triples generalizing scan with
  | nil => rfl
  | cons item triples ih =>
    have hturn : (flaggedStep scan item.1 item.2.1 item.2.2).unique.length +
        (flaggedStep scan item.1 item.2.1 item.2.2).dropped = scan.unique.length + scan.dropped + 1 := by
      rw [flaggedStep]
      split_ifs <;> simp only [List.length_append, List.length_singleton] <;> omega
    rw [List.foldl_cons, ih, hturn, List.length_cons]
    omega

end Loops

section Filter

variable {members known : Finset (List Char)} {items : List (List Char × List Char)}

theorem answers_addBatch (members known : Finset (List Char)) (keys : List (List Char)) :
    Answers members known keys (addBatch known keys).1 := by
  induction keys generalizing known with
  | nil => exact .nil _
  | cons key keys ih => exact .cons (.inl rfl) (ih _)

theorem answers_contains (members known : Finset (List Char)) (keys : List (List Char)) :
    Answers members known keys (keys.map fun key => decide (key ∉ members)) := by
  induction keys generalizing known with
  | nil => exact .nil _
  | cons key keys ih => exact .cons (.inr rfl) (ih _)

theorem addBatch_length (known : Finset (List Char)) (keys : List (List Char)) :
    (addBatch known keys).1.length = keys.length := by
  induction keys generalizing known with
  | nil => rfl
  | cons key keys ih => exact congrArg (· + 1) (ih _)

theorem addBatch_members (known : Finset (List Char)) (items : List (List Char × List Char)) :
    (addBatch known (items.map Prod.snd)).2 = filled known (fresh known items) true := by
  induction items generalizing known with
  | nil => exact (Finset.union_empty known).symm
  | cons item items ih =>
    have hone : filled known (freshOne known item) true = insert item.2 known := by
      by_cases hmem : item.2 ∈ known
      · rw [freshOne, if_pos hmem, Finset.insert_eq_of_mem hmem]
        exact Finset.union_empty known
      · rw [freshOne, if_neg hmem]
        simp [filled]
    calc (addBatch known (List.map Prod.snd (item :: items))).2
        = filled (insert item.2 known) (fresh (insert item.2 known) items) true := ih _
      _ = filled known (freshOne known item ++ fresh (insert item.2 known) items) true := by
          rw [← hone, filled_append, hone]

theorem fresh_length_le (known : Finset (List Char)) (items : List (List Char × List Char)) :
    (fresh known items).length ≤ items.length := by
  induction items generalizing known with
  | nil => exact Nat.le_refl 0
  | cons item items ih =>
    have hrest := ih (insert item.2 known)
    rw [fresh_cons, List.length_append, List.length_cons, freshOne]
    split_ifs <;> simp only [List.length_nil, List.length_singleton] <;> omega

theorem mem_fresh {before after : List (List Char × List Char)} {item : List Char × List Char}
    (hknown : item.2 ∉ known) (hbefore : item.2 ∉ before.map Prod.snd) :
    item ∈ fresh known (before ++ item :: after) := by
  induction before generalizing known with
  | nil =>
    rw [List.nil_append, fresh_cons, freshOne, if_neg hknown]
    exact List.mem_cons_self
  | cons first before ih =>
    rw [List.map_cons, List.mem_cons, not_or] at hbefore
    rw [List.cons_append, fresh_cons]
    apply List.mem_append_right
    apply ih _ hbefore.2
    rw [Finset.mem_insert, not_or]
    exact ⟨hbefore.1, hknown⟩

theorem handled_of_blank (hkey : ∀ item ∈ items, item.1 ≠ [] → item.2 ≠ [])
    (hblank : ∀ before after key, items = before ++ ([], key) :: after →
      key ∈ known ∨ key ∈ before.map Prod.snd) : Handled known items := by
  induction items generalizing known with
  | nil => trivial
  | cons item items ih =>
    refine ⟨fun hraw => ?_, hkey item List.mem_cons_self, ih (fun i hi => hkey i (List.mem_cons_of_mem _ hi)) ?_⟩
    · have hhead := hblank [] items item.2 (by rw [← hraw]; rfl)
      exact hhead.resolve_right List.not_mem_nil
    · intro before after key hsplit
      rw [Finset.mem_insert]
      cases hblank (item :: before) after key (congrArg (item :: ·) hsplit) with
      | inl h => exact .inl (.inr h)
      | inr h =>
        cases List.mem_cons.1 h with
        | inl h => exact .inl (.inl h)
        | inr h => exact .inr h

end Filter

/-! ### The call -/

section Call

variable {t : UrlTables} {engine : Option UrlEngine} {urls keys : List (List Char)}
  {members : Finset (List Char)} {normalize addToFilter hasAddBatch : Bool} {url key : List Char}

theorem normalizeUrl_eq_none_iff : normalizeUrl t engine url = none ↔ engine.bind (·.normalize url) = none ∧
    ∃ split, t.parser.urlsplit url = some split ∧ UrlParser.port split.netloc = none := by
  cases hengine : engine.bind (·.normalize url) with
  | some key => simp [normalizeUrl, hengine]
  | none =>
    have hpython : normalizeUrl t engine url = UrlDedup.normalizeUrl t url := by
      simp only [normalizeUrl, hengine]
    rw [hpython]
    cases hsplit : t.parser.urlsplit url with
    | none => simp [UrlDedup.normalizeUrl_of_refused hsplit]
    | some split =>
      cases hport : UrlParser.port split.netloc with
      | none => simp [UrlDedup.normalizeUrl_of_malformed hsplit hport, hport]
      | some port => simp [UrlDedup.normalizeUrl_eq hsplit hport, hport]

theorem key_ne_nil (h : keyOf t engine normalize url = some key) (hurl : url ≠ []) : key ≠ [] := by
  cases normalize with
  | false => exact Option.some_inj.1 h ▸ hurl
  | true =>
    have hkey : normalizeUrl t engine url = some key := h
    cases hengine : engine.bind (·.normalize url) with
    | some read =>
      obtain ⟨e, _, hread⟩ := Option.bind_eq_some_iff.1 hengine
      simp only [normalizeUrl, hengine, Option.some.injEq] at hkey
      exact hkey ▸ e.nonempty _ _ hread
    | none =>
      simp only [normalizeUrl, hengine] at hkey
      cases hsplit : t.parser.urlsplit url with
      | none =>
        rw [UrlDedup.normalizeUrl_of_refused hsplit, Option.some_inj] at hkey
        exact hkey ▸ hurl
      | some split =>
        cases hport : UrlParser.port split.netloc with
        | none =>
          rw [UrlDedup.normalizeUrl_of_malformed hsplit hport] at hkey
          cases hkey
        | some port =>
          rw [UrlDedup.normalizeUrl_eq hsplit hport, Option.some_inj] at hkey
          rw [← hkey]
          simp [UrlDedup.rebuild]

theorem canonicalizeBatch_eq {e : UrlEngine} (h : ∀ url ∈ urls, e.normalize url ≠ none) :
    urls.mapM (keyOf t (some e) true) = some (e.canonicalizeBatch urls) := by
  rw [mapM_eq_some_iff]
  induction urls with
  | nil => exact .nil
  | cons url urls ih =>
    obtain ⟨key, hkey⟩ := Option.ne_none_iff_exists'.1 (h url List.mem_cons_self)
    rw [UrlEngine.canonicalizeBatch, List.filterMap_cons, hkey]
    refine .cons ?_ (ih fun u hu => h u (List.mem_cons_of_mem _ hu))
    simp [keyOf, normalizeUrl, hkey]

theorem normalizeUrlParallel_eq (h : normalize = true → normalizeParallelThreshold ≤ urls.length →
    ∀ e, engine = some e → ∀ url ∈ urls, e.normalize url ≠ none) :
    normalizeUrlParallel t engine urls normalize = urls.mapM (keyOf t engine normalize) := by
  cases normalize with
  | false =>
    rw [normalizeUrlParallel.eq_def, if_pos (.inr rfl)]
    exact (mapM_eq_some_iff.2 (List.forall₂_same.2 fun _ _ => rfl)).symm
  | true =>
    by_cases hsmall : urls.length < normalizeParallelThreshold
    · rw [normalizeUrlParallel.eq_def, if_pos (.inl hsmall)]
      rfl
    · rw [normalizeUrlParallel.eq_def, if_neg (by simpa using hsmall)]
      cases engine with
      | none => rfl
      | some e => exact (canonicalizeBatch_eq (h rfl (Nat.le_of_not_lt hsmall) e rfl)).symm

theorem dedupeUrlList_flagged (members : Finset (List Char)) (hurls : urls ≠ [])
    (hkeys : normalizeUrlParallel t engine urls normalize = some keys)
    (hpath : ¬ (addToFilter = true ∧ hasAddBatch = false)) :
    ∃ flags, Answers members members keys flags ∧ flags.length = keys.length ∧
      dedupeUrlList t engine urls (some ⟨members, hasAddBatch⟩) normalize addToFilter =
        some ⟨(flaggedLoop urls keys flags).unique, (flaggedLoop urls keys flags).dropped,
          some ⟨if addToFilter then (addBatch members keys).2 else members, hasAddBatch⟩⟩ := by
  have hcall : dedupeUrlList t engine urls (some ⟨members, hasAddBatch⟩) normalize addToFilter =
      let results := if addToFilter then addBatch members keys
        else (keys.map fun key => decide (key ∉ members), members)
      some ⟨(flaggedLoop urls keys results.1).unique, (flaggedLoop urls keys results.1).dropped,
        some ⟨results.2, hasAddBatch⟩⟩ := by
    rw [dedupeUrlList, if_neg hurls]
    simp only [hkeys, if_neg hpath]
  cases addToFilter with
  | true => exact ⟨(addBatch members keys).1, answers_addBatch _ _ _, addBatch_length _ _, hcall⟩
  | false => exact ⟨_, answers_contains members members keys, List.length_map _, hcall⟩

theorem dedupeUrlList_items (hurls : urls ≠ [])
    (hkeys : normalizeUrlParallel t engine urls normalize = some keys)
    (hpath : addToFilter = true ∧ hasAddBatch = false) :
    dedupeUrlList t engine urls (some ⟨members, hasAddBatch⟩) normalize addToFilter =
      some ⟨(itemLoop addToFilter members urls keys).1.unique, (itemLoop addToFilter members urls keys).1.dropped,
        some ⟨(itemLoop addToFilter members urls keys).2, hasAddBatch⟩⟩ := by
  rw [dedupeUrlList, if_neg hurls]
  simp only [hkeys, if_pos hpath]

theorem dedupeUrlList_eq {items : List (List Char × List Char)} (hitems : Handled members items)
    (hkeys : normalizeUrlParallel t engine (items.map Prod.fst) normalize = some (items.map Prod.snd)) :
    dedupeUrlList t engine (items.map Prod.fst) (some ⟨members, hasAddBatch⟩) normalize addToFilter =
      some ⟨(fresh members items).map Prod.fst, items.length - (fresh members items).length,
        some ⟨filled members (fresh members items) addToFilter, hasAddBatch⟩⟩ := by
  have hstart : members = Scan.start.seen ∪ members := (Finset.empty_union members).symm
  have hcounted {scan : Scan} (h : Returns Scan.start scan (fresh members items) items.length) :
      scan.unique = (fresh members items).map Prod.fst ∧
        scan.dropped = items.length - (fresh members items).length := by
    have hdropped : scan.dropped + (fresh members items).length = 0 + items.length := h.dropped
    exact ⟨h.unique, by omega⟩
  cases items with
  | nil =>
    have hfilter : filled members [] addToFilter = members := by
      cases addToFilter with
      | false => rfl
      | true => exact Finset.union_empty members
    rw [fresh, hfilter]
    rfl
  | cons item items =>
    have hurls : (item :: items).map Prod.fst ≠ [] := List.cons_ne_nil _ _
    by_cases hpath : addToFilter = true ∧ hasAddBatch = false
    · obtain ⟨hloop, hfilter⟩ := item_fold addToFilter hitems hstart
      obtain ⟨hunique, hdropped⟩ := hcounted hloop
      rw [dedupeUrlList_items hurls hkeys hpath, itemLoop, hunique, hdropped, hfilter]
    · obtain ⟨flags, hanswers, _, hcall⟩ := dedupeUrlList_flagged members hurls hkeys hpath
      obtain ⟨hunique, hdropped⟩ := hcounted (flagged_fold hanswers hitems hstart)
      rw [hcall, flaggedLoop, hunique, hdropped, addBatch_members]
      rfl

theorem nil_notMem_unique {outcome : Outcome} (hurls : urls ≠ [])
    (h : dedupeUrlList t engine urls (some ⟨members, true⟩) normalize addToFilter = some outcome) :
    [] ∉ outcome.unique := by
  cases hkeys : normalizeUrlParallel t engine urls normalize with
  | none => simp [dedupeUrlList, hurls, hkeys] at h
  | some keys =>
    obtain ⟨flags, _, _, hcall⟩ := dedupeUrlList_flagged members hurls hkeys
      (fun h : addToFilter = true ∧ true = false => Bool.noConfusion h.2)
    rw [hcall, Option.some_inj] at h
    rw [← h]
    exact flagged_nonempty List.not_mem_nil

theorem count_eq {outcome : Outcome} (hurls : urls ≠ [])
    (hkeys : normalizeUrlParallel t engine urls normalize = some keys)
    (h : dedupeUrlList t engine urls (some ⟨members, true⟩) normalize addToFilter = some outcome) :
    outcome.unique.length + outcome.dropped = min urls.length keys.length := by
  obtain ⟨flags, _, hlength, hcall⟩ := dedupeUrlList_flagged members hurls hkeys
    (fun h : addToFilter = true ∧ true = false => Bool.noConfusion h.2)
  rw [hcall, Option.some_inj] at h
  rw [← h]
  show (flaggedLoop urls keys flags).unique.length + (flaggedLoop urls keys flags).dropped = _
  rw [flaggedLoop, flagged_count, List.length_zip, List.length_zip, hlength, Nat.min_self]
  exact Nat.zero_add _

theorem dedupesExactly_of_regular (h : Regular t engine urls members normalize) :
    DedupesExactly t engine urls members normalize addToFilter := by
  have hread : ∀ url ∈ urls, keyOf t engine normalize url ≠ none := by
    intro url hurl
    cases normalize with
    | false => exact Option.some_ne_none url
    | true =>
      intro hnone
      obtain ⟨hengine, split, hsplit, hport⟩ := normalizeUrl_eq_none_iff.1 hnone
      exact h.ports rfl url hurl hengine split hsplit hport
  obtain ⟨keys, hkeys⟩ := exists_mapM_iff.2 hread
  have hpairs := mapM_eq_some_iff.1 hkeys
  have hlength := hpairs.length_eq
  have hfst : (urls.zip keys).map Prod.fst = urls := List.map_fst_zip hlength.le
  have hsnd : (urls.zip keys).map Prod.snd = keys := List.map_snd_zip hlength.ge
  have hkeyOf : ∀ item ∈ urls.zip keys, keyOf t engine normalize item.1 = some item.2 :=
    fun item hmem => List.forall₂_zip hpairs hmem
  have hhandled : Handled members (urls.zip keys) := by
    apply handled_of_blank fun item hmem hurl => key_ne_nil (hkeyOf item hmem) hurl
    intro before after key hsplit
    have hitem : keyOf t engine normalize [] = some key :=
      hkeyOf ([], key) (hsplit ▸ List.mem_append_right _ List.mem_cons_self)
    have hurls : urls = before.map Prod.fst ++ [] :: after.map Prod.fst := by
      rw [← hfst, hsplit, List.map_append, List.map_cons]
    obtain ⟨key', hkey', hknown⟩ := h.blank _ _ hurls
    rw [hitem, Option.some_inj] at hkey'
    subst hkey'
    refine hknown.imp_right ?_
    rintro ⟨url, hurl, hsame⟩
    obtain ⟨item, hitem, rfl⟩ := List.mem_map.1 hurl
    have hown := hkeyOf item (hsplit ▸ List.mem_append_left _ hitem)
    exact List.mem_map.2 ⟨item, hitem, Option.some_inj.1 (hown.symm.trans hsame)⟩
  refine ⟨keys, hkeys, fun hasAddBatch => ?_⟩
  have hparallel : normalizeUrlParallel t engine ((urls.zip keys).map Prod.fst) normalize =
      some ((urls.zip keys).map Prod.snd) := by
    rw [hfst, hsnd, normalizeUrlParallel_eq h.batch, hkeys]
  have hlist : dedupeUrlList t engine urls (some ⟨members, hasAddBatch⟩) normalize addToFilter =
      dedupeUrlList t engine ((urls.zip keys).map Prod.fst) (some ⟨members, hasAddBatch⟩) normalize addToFilter := by
    rw [hfst]
  rw [hlist, dedupeUrlList_eq hhandled hparallel, List.length_zip, hlength, Nat.min_self]

theorem regular_of_dedupesExactly (h : DedupesExactly t engine urls members normalize addToFilter) :
    Regular t engine urls members normalize := by
  obtain ⟨keys, hkeys, hcall⟩ := h
  have hread : ∀ url ∈ urls, keyOf t engine normalize url ≠ none := exists_mapM_iff.1 ⟨keys, hkeys⟩
  have hlength := (mapM_eq_some_iff.1 hkeys).length_eq
  constructor
  case ports =>
    intro hnormalize url hurl hengine split hsplit hport
    subst hnormalize
    exact hread url hurl (normalizeUrl_eq_none_iff.2 ⟨hengine, split, hsplit, hport⟩)
  case batch =>
    intro hnormalize hlarge e he url hurl hnone
    subst hnormalize he
    -- the batch is shorter than the list, and the loop stops with it
    have hshort : (e.canonicalizeBatch urls).length < urls.length :=
      List.length_filterMap_lt_length_iff_exists.2 ⟨url, hurl, hnone⟩
    have hparallel : normalizeUrlParallel t (some e) urls true = some (e.canonicalizeBatch urls) := by
      rw [normalizeUrlParallel.eq_def, if_neg (by simpa using hlarge)]
    have hcount := count_eq (List.ne_nil_of_mem hurl) hparallel (hcall true)
    have hle := fresh_length_le members (urls.zip keys)
    dsimp only at hcount
    rw [List.length_map, Nat.min_eq_right hshort.le] at hcount
    rw [List.length_zip, ← hlength, Nat.min_self] at hle
    omega
  case blank =>
    intro before after hsplit
    subst hsplit
    obtain ⟨ks, key, ws, hbefore, hkey, _, rfl⟩ := mapM_append_cons hkeys
    refine ⟨key, hkey, ?_⟩
    by_contra hnew
    rw [not_or] at hnew
    have hks : key ∉ ks := fun hmem => hnew.2 (exists_of_mem_mapM hbefore hmem)
    have hbeforeLength := (mapM_eq_some_iff.1 hbefore).length_eq
    have hzip : (before ++ [] :: after).zip (ks ++ key :: ws) = before.zip ks ++ ([], key) :: after.zip ws := by
      rw [List.zip_append hbeforeLength, List.zip_cons_cons]
    have hfresh : ([], key) ∈ fresh members ((before ++ [] :: after).zip (ks ++ key :: ws)) := by
      rw [hzip]
      apply mem_fresh hnew.1
      rwa [List.map_snd_zip hbeforeLength.ge]
    have hurls : before ++ [] :: after ≠ [] := List.append_ne_nil_of_right_ne_nil _ (List.cons_ne_nil _ _)
    exact nil_notMem_unique hurls (hcall true) (List.mem_map.2 ⟨_, hfresh, rfl⟩)

end Call

/-- The list is deduplicated exactly when and only when its URLs are regular. -/
theorem dedupesExactly_iff (t : UrlTables) (engine : Option UrlEngine) (urls : List (List Char))
    (members : Finset (List Char)) (normalize addToFilter : Bool) :
    DedupesExactly t engine urls members normalize addToFilter ↔ Regular t engine urls members normalize :=
  ⟨regular_of_dedupesExactly, dedupesExactly_of_regular⟩

/-- A malformed port is raised out of the call, although an invalid URL should be kept. -/
theorem not_dedupesExactly :
    ¬ DedupesExactly UrlTables.ascii none ["http://a:x/".toList] ∅ true true := by
  rintro ⟨keys, hkeys, _⟩
  have hnone : ["http://a:x/".toList].mapM (keyOf UrlTables.ascii none true) = none := by decide
  rw [hnone] at hkeys
  cases hkeys

end Hledac.Tools.UrlListDedup
