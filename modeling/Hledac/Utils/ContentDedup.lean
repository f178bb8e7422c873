import Hledac.Lib.Grouping
import Hledac.Py.Case
import Hledac.Py.Repr

/-!
# Content deduplication

`ContentDeduplicator` compares an item with the candidates in the bucket of its SimHash, which is computed from the first
5000 characters of the content as they are. The signatures that are compared then are computed from the whole content,
its case and its whitespace normalised. Similarities are rational numbers.
-/

namespace Hledac.Utils

open Hledac.Lib Hledac.Lib.Words Hledac.Py

/-- `DeduplicationStrategy`; `utils/deduplication.py:101-107`. -/
inductive DeduplicationStrategy where
  | semantic
  | content
  | metadata
  | hybrid
  deriving DecidableEq

/-- `DeduplicationConfig`, as far as it is read here; lines 110-136. -/
structure DeduplicationConfig where
  contentThreshold : ℚ := 9 / 10
  strategies : List DeduplicationStrategy := [.semantic, .content, .metadata]
  enableMinhash : Bool := true
  minhashSize : Nat := 128
  ngramSize : Nat := 5
  hashAlgorithm : String := "sha256"
  batchSize : Nat := 100

/-- `QueryItem`, as far as it is read here; lines 139-148. -/
structure QueryItem where
  id : String
  title : String
  content : String
  deriving DecidableEq

/-- `DeduplicationMatch` with its score; lines 157-188. -/
structure DeduplicationMatch where
  originalItem : QueryItem
  matchedItem : QueryItem
  score : ℚ
  confidence : ℚ
  matchType : DeduplicationStrategy
  decision : String := "pending"

/-- The hash functions, `mmh3` where it is installed, `str` of the seed, and the cap of the environment. -/
structure DedupHashes where
  xxh3Hex : List Char → List Char
  sha256Hex : List Char → List Char
  mmh3 : Option (List Char → Nat)
  seed : List Char
  maxNgrams : Nat

namespace ContentDedup

variable (h : DedupHashes) (t : CaseTables) (config : DeduplicationConfig)

/-! ### SimHash -/

/-- `SimHash._tokenize`; lines 1570-1575. -/
def tokenize (text : List Char) : List (List Char) :=
  let ws := words isSpace (t.lower text)
  if ws.length < 3 then ws
  else (ws.zip ((ws.drop 1).zip (ws.drop 2))).map fun p => [' '].intercalate [p.1, p.2.1, p.2.2]

/-- `SimHash._token_hash`; lines 1577-1589. The cache holds what is computed here. -/
def tokenHash (token : List Char) : Nat := ofHex 0 ((h.xxh3Hex (token ++ h.seed)).take 16)

/-- `v[i]`. -/
def vote (tokens : List (List Char)) (i : Nat) : Int :=
  (tokens.map fun token => if (tokenHash h token).testBit i then (1 : Int) else -1).sum

/-- `SimHash.compute` with 64 bits; lines 1591-1609. -/
def simhash (text : List Char) : Nat :=
  let tokens := tokenize t (text.take 5000)
  if tokens = [] then 0
  else (List.range 64).foldl (fun fingerprint i => if 0 < vote h tokens i then fingerprint ||| (1 <<< i) else fingerprint) 0

/-- The bucket of an item: the low sixteen bits. -/
def bucketOf (item : QueryItem) : Nat := simhash h t item.content.toList &&& ((1 <<< 16) - 1)

/-- `_cluster_by_simhash`; lines 674-681. -/
def clusterBySimhash (items : List QueryItem) : Dict Nat (List QueryItem) :=
  Dict.group (fun item => some (bucketOf h t item)) items

/-! ### Signatures -/

/-- What `_generate_signature` returns, the counts that no comparison reads left out. -/
structure Signature where
  hash : List Char
  charHash : List Char
  minhash : Option (List Nat)
  length : Nat
  wordCount : Nat

/-- `_compute_hash`; lines 755-762. -/
def computeHash (content : List Char) : List Char :=
  if config.hashAlgorithm = "sha256" then h.sha256Hex content
  else if config.hashAlgorithm = "md5" then h.xxh3Hex content
  else h.sha256Hex content

/-- `" ".join(content.lower().split())`. -/
def normalized (content : List Char) : List Char := [' '].intercalate (words isSpace (t.lower content))

/-- `_generate_ngrams`; lines 811-817. -/
def generateNgrams (content : List Char) (n : Nat) : List (List Char) :=
  let content := stripChars ((t.lower content).map fun ch => if ch = '\n' then ' ' else ch)
  if content.length < n then [content]
  else if n = 0 then []
  else ((List.range (content.length - n + 1)).map fun i => (content.drop i).take n).filter fun ngram =>
    decide (stripChars ngram ≠ [])

/-- `_compute_minhash`; lines 778-809. -/
def computeMinhash (content : List Char) : List Nat :=
  match h.mmh3 with
  | none => []
  | some mmh3 =>
    let ngrams := (generateNgrams t content config.ngramSize).take h.maxNgrams
    if ngrams = [] then List.replicate config.minhashSize 0
    else (List.range config.minhashSize).map fun i =>
      ((ngrams.map fun ngram => mmh3 (ngram ++ '_' :: (toString i).toList)).min?).getD 0

/-- `_generate_signature`; lines 743-753. -/
def generateSignature (content : List Char) : Signature where
  hash := computeHash h config content
  charHash := h.xxh3Hex (normalized t content)
  minhash := if config.enableMinhash then some (computeMinhash h t config content) else none
  length := content.length
  wordCount := (words isSpace content).length

/-- `content_cache`, which holds the signatures of the contents that are its keys, and the sizes it counts with. -/
structure ContentCache where
  entries : Dict String Signature := .empty
  cacheSize : ℚ := 0
  signatureSize : Signature → ℚ
  sound : ∀ content signature, entries.get? content = some signature →
    signature = generateSignature h t config content.toList

/-- `_get_content_signature`; lines 731-741. -/
def getContentSignature (cache : ContentCache h t config) (item : QueryItem) : Signature × ContentCache h t config :=
  let content := strip item.content
  match cache.entries.get? content with
  | some signature => (signature, cache)
  | none =>
    let signature := generateSignature h t config content.toList
    if cache.cacheSize + cache.signatureSize signature ≤ 128 then
      (signature, { cache with
        entries := cache.entries.insert content signature
        cacheSize := cache.cacheSize + cache.signatureSize signature
        sound := by
          intro c s hs
          rw [Dict.get?_insert] at hs
          split at hs
          · next hc => rw [← Option.some.inj hs, ← hc]
          · exact cache.sound c s hs })
    else (signature, cache)

/-- `_compute_hash_similarity`; lines 819-831. -/
def hashSimilarity (sig₁ sig₂ : Signature) : ℚ :=
  if sig₁.hash = sig₂.hash then 1
  else if sig₁.charHash = sig₂.charHash then 19 / 20
  else
    let share (m n : Nat) : ℚ := if 0 < max m n then 1 - |(m : ℚ) - n| / max m n else 0
    share sig₁.length sig₂.length * (2 / 5) + share sig₁.wordCount sig₂.wordCount * (3 / 10) + 3 / 10

/-- `_compute_minhash_similarity`; lines 833-840. -/
def minhashSimilarity (minhash₁ minhash₂ : Option (List Nat)) : ℚ :=
  let m₁ := minhash₁.getD []
  let m₂ := minhash₂.getD []
  if m₁ = [] ∨ m₂ = [] ∨ m₁.length ≠ m₂.length then 0
  else ((m₁.zip m₂).countP fun p => decide (p.1 = p.2) : ℚ) / m₁.length

/-- `overall_similarity`. -/
def overallSimilarity (itemSignature candidateSignature : Signature) : ℚ :=
  max (hashSimilarity itemSignature candidateSignature)
    (if config.enableMinhash then minhashSimilarity itemSignature.minhash candidateSignature.minhash else 0)

/-- One turn of the loop over the bucket; lines 694-725. -/
def compareCandidate (item : QueryItem) (s : ContentCache h t config × List DeduplicationMatch)
    (candidate : QueryItem) : ContentCache h t config × List DeduplicationMatch :=
  if candidate.id = item.id then s
  else
    let (candidateSignature, cache) := getContentSignature h t config s.1 candidate
    let (itemSignature, cache) := getContentSignature h t config cache item
    let overall := overallSimilarity config itemSignature candidateSignature
    if config.contentThreshold ≤ overall then
      (cache, s.2 ++ [{
        originalItem := item
        matchedItem := candidate
        score := overall
        confidence := min 1 (overall + 1 / 20)
        matchType := .content }])
    else (cache, s.2)

/-- `find_duplicates`; lines 683-729. -/
def findDuplicates (cache : ContentCache h t config) (item : QueryItem) (candidates : List QueryItem) :
    ContentCache h t config × List DeduplicationMatch :=
  if candidates = [] then (cache, [])
  else
    let bucketCandidates := ((clusterBySimhash h t (item :: candidates)).get? (bucketOf h t item)).getD []
    bucketCandidates.foldl (compareCandidate h t config item) (cache, [])

/-! ### What is reported -/

section Spec

variable {h t config} {item candidate : QueryItem} {candidates : List QueryItem} {text text' : List Char}

theorem getContentSignature_fst (cache : ContentCache h t config) (item : QueryItem) :
    (getContentSignature h t config cache item).1 = generateSignature h t config (stripChars item.content.toList) := by
  have hstrip : (strip item.content).toList = stripChars item.content.toList := String.toList_ofList
  rw [← hstrip, getContentSignature]
  cases hcached : cache.entries.get? (strip item.content) with
  | some signature => exact cache.sound _ _ hcached
  | none =>
    simp only
    split
    · rfl
    · rfl

theorem normalized_stripChars (text : List Char) : normalized t (stripChars text) = normalized t text := by
  have hwords : words isSpace (stripChars text) = words isSpace text := by
    rw [stripChars, words_rdropWhile, words_dropWhile]
  rw [normalized, CaseTables.words_lower, hwords, ← CaseTables.words_lower, ← normalized]

theorem le_overallSimilarity (hthreshold : config.contentThreshold ≤ 19 / 20)
    (hsame : normalized t text = normalized t text') :
    config.contentThreshold ≤ overallSimilarity config (generateSignature h t config (stripChars text))
      (generateSignature h t config (stripChars text')) := by
  apply hthreshold.trans
  apply le_max_of_le_left
  have hchar : (generateSignature h t config (stripChars text)).charHash =
      (generateSignature h t config (stripChars text')).charHash := by
    simp only [generateSignature, normalized_stripChars, hsame]
  rw [hashSimilarity, if_pos hchar]
  split
  · norm_num
  · exact le_rfl

theorem matchedItems_foldl (item : QueryItem) (cs : List QueryItem)
    (s : ContentCache h t config × List DeduplicationMatch) :
    ((cs.foldl (compareCandidate h t config item) s).2.map (·.matchedItem)) = s.2.map (·.matchedItem) ++
      cs.filter fun c => decide (c.id ≠ item.id ∧ config.contentThreshold ≤
        overallSimilarity config (generateSignature h t config (stripChars item.content.toList))
          (generateSignature h t config (stripChars c.content.toList))) := by
  induction cs generalizing s with
  | nil => simp
  | cons c cs ih =>
    rw [List.foldl_cons, ih]
    by_cases hid : c.id = item.id
    · rw [compareCandidate, if_pos hid, List.filter_cons_of_neg (by simp [hid])]
    · have hstep : (compareCandidate h t config item s c).2.map (·.matchedItem) = s.2.map (·.matchedItem) ++
          if config.contentThreshold ≤ overallSimilarity config
              (generateSignature h t config (stripChars item.content.toList))
              (generateSignature h t config (stripChars c.content.toList)) then [c] else [] := by
        rw [compareCandidate, if_neg hid]
        simp only [getContentSignature_fst]
        split
        · simp
        · simp
      rw [hstep, List.filter_cons]
      split
      · next hsim => simp [hid, hsim]
      · next hsim => simp [hid, hsim]

theorem exists_match_iff (cache : ContentCache h t config) :
    (∃ m ∈ (findDuplicates h t config cache item candidates).2, m.matchedItem = candidate) ↔
      candidate ∈ item :: candidates ∧ bucketOf h t candidate = bucketOf h t item ∧ candidate.id ≠ item.id ∧
        config.contentThreshold ≤
          overallSimilarity config (generateSignature h t config (stripChars item.content.toList))
            (generateSignature h t config (stripChars candidate.content.toList)) := by
  rw [← List.mem_map, findDuplicates]
  split
  · next hnil =>
    rw [hnil]
    simp
    intro hc
    exact fun _ hid => absurd (congrArg QueryItem.id hc) hid
  · rw [matchedItems_foldl, clusterBySimhash, Dict.group, Dict.getD_collect]
    simp [and_assoc]

end Spec

/-- For every item, candidates with another copy of its content among them and every threshold up to 0.95, the copy is
reported if and only if the two contents, as they are, fall into one bucket of the SimHash. -/
theorem findsCopy_iff (cache : ContentCache h t config) (hthreshold : config.contentThreshold ≤ 19 / 20)
    {item candidate : QueryItem} {candidates : List QueryItem} (hmem : candidate ∈ candidates)
    (hid : candidate.id ≠ item.id)
    (hsame : normalized t candidate.content.toList = normalized t item.content.toList) :
    (∃ m ∈ (findDuplicates h t config cache item candidates).2, m.matchedItem = candidate) ↔
      bucketOf h t candidate = bucketOf h t item := by
  rw [exists_match_iff]
  constructor
  · exact fun hall => hall.2.1
  · exact fun hbucket => ⟨List.mem_cons_of_mem _ hmem, hbucket, hid, le_overallSimilarity hthreshold hsame.symm⟩

/-- The fallback of `xxh3_64_hex`, with what it gives for the letter and for the letter with the seed zero. -/
private def letterHashes : DedupHashes where
  xxh3Hex cs := if cs = ['a', '0'] then "66b424d3bd09c1e8".toList else "40f89e395b66422f".toList
  sha256Hex cs := if cs = ['a'] then "ca978112ca1bbdcafac231b39a23dc4da786eff8147c4e72b9807785afee48bb".toList
    else "559aead08264d5795d3909718cdd05abd49572e84fe55590eef31a88a08fdffd".toList
  mmh3 := none
  seed := ['0']
  maxNgrams := 50000

private def emptyCache : ContentCache letterHashes .ascii {} where
  signatureSize _ := 0
  sound _ _ hs := by cases hs

/-- The letter is found in its other case. -/
theorem findsCopy_upper : ∃ m ∈ (findDuplicates letterHashes .ascii {} emptyCache ⟨"1", "", "a"⟩ [⟨"2", "", "A "⟩]).2,
    m.matchedItem = ⟨"2", "", "A "⟩ :=
  (findsCopy_iff letterHashes .ascii {} emptyCache (by norm_num) (List.mem_singleton_self _) (by decide)
    (by decide)).2 (by decide +kernel)

private theorem words_spaces (n : Nat) (rest : List Char) :
    words isSpace (List.replicate n ' ' ++ rest) = words isSpace rest := by
  rw [← words_dropWhile, List.dropWhile_append_of_pos, words_dropWhile]
  intro ch hch
  rw [List.eq_of_mem_replicate hch]
  rfl

/-- The letter behind so many spaces that the window ends before it. -/
private def lateLetter : QueryItem := ⟨"2", "", String.ofList (List.replicate 5000 ' ' ++ ['a'])⟩

/-- A copy of the letter behind 5000 spaces is not found. -/
theorem not_findsCopy : normalized .ascii lateLetter.content.toList = normalized .ascii "a".toList ∧
    ¬ ∃ m ∈ (findDuplicates letterHashes .ascii {} emptyCache ⟨"1", "", "a"⟩ [lateLetter]).2,
      m.matchedItem = lateLetter := by
  have hcontent : lateLetter.content.toList = List.replicate 5000 ' ' ++ ['a'] := String.toList_ofList
  constructor
  · rw [normalized, CaseTables.words_lower, hcontent, words_spaces]
    rfl
  · rw [exists_match_iff]
    intro hall
    have hlate : bucketOf letterHashes .ascii lateLetter = 0 := by
      have htokens : tokenize .ascii (List.replicate 5000 ' ') = [] := by
        have hwords := words_spaces 5000 []
        rw [List.append_nil, words_nil] at hwords
        rw [tokenize, CaseTables.words_lower, hwords]
        rfl
      rw [bucketOf, simhash, hcontent, List.take_left' List.length_replicate, htokens]
      rfl
    have hletter : bucketOf letterHashes .ascii ⟨"1", "", "a"⟩ ≠ 0 := by decide +kernel
    exact hletter (hall.2.1.symm.trans hlate)

end ContentDedup

end Hledac.Utils
