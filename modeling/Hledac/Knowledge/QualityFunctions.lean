import Hledac.Lib.FifoCache
import Hledac.Py.Parse
import Hledac.Knowledge.Finding

/-!
# What the quality gates compute and remember

The pure helpers of `knowledge/quality_assessment.py`, the bounded hot cache, the persistent map and
the semantic cache, as both gates use them. Nothing here depends on the Rust extension: its fast
paths are absent.
-/

namespace Hledac.Knowledge

open Hledac.Lib

/-- The helpers, whatever they compute: a fingerprint has 32 hexadecimal digits, and the normal form of
an HTTP URL is never empty. -/
structure QualityFunctions where
  normalizeForQuality : String → String
  computeEntropy : String → ℚ
  normalizeOsintUrl : String → String
  blake2b : String → String
  normalizeOsintUrl_ne : ∀ url, startsWith "http" url = true → normalizeOsintUrl url ≠ ""
  length_blake2b : ∀ text, (blake2b text).length = 32

namespace QualityFunctions

variable (q : QualityFunctions)

/-- `_compute_dedup_fingerprint`; lines 241-264. -/
def computeDedupFingerprint (text : String) : String := q.blake2b (q.normalizeForQuality text)

/-- `_compute_url_fingerprint`; lines 267-292. -/
def computeUrlFingerprint (url : String) : String :=
  let normalizedUrl := q.normalizeOsintUrl url
  if normalizedUrl = "" then "" else q.blake2b normalizedUrl

theorem blake2b_ne (text : String) : q.blake2b text ≠ "" := by
  intro h
  have hlen := q.length_blake2b text
  rw [h] at hlen
  cases hlen

theorem computeUrlFingerprint_ne {url : String} (h : startsWith "http" url = true) :
    q.computeUrlFingerprint url ≠ "" := by
  simp only [computeUrlFingerprint, if_neg (q.normalizeOsintUrl_ne url h)]
  exact q.blake2b_ne _

end QualityFunctions

/-- The text that is assessed when there is no URL; lines 678-680. -/
def CanonicalFinding.qualityText (f : CanonicalFinding) : String :=
  if Py.strip f.payloadOrQuery = "" then f.query else f.payloadOrQuery

/-- The persistent map from fingerprints to finding ids. -/
abbrev DedupLmdb := String → Option String

/-- A write of one entry. -/
def DedupLmdb.put (l : DedupLmdb) (fp findingId : String) : DedupLmdb :=
  Function.update l fp (some findingId)

/-- The semantic cache with the calls made of it; it answers the last one, or raises. -/
structure SemanticDedupCache where
  calls : List (String × ℚ) := []
  answer : List (String × ℚ) → Except StoreError Bool

/-- `check_and_cache`. -/
def SemanticDedupCache.checkAndCache (c : SemanticDedupCache) (text : String) (threshold : ℚ) :
    Except StoreError Bool × SemanticDedupCache :=
  let calls := c.calls ++ [(text, threshold)]
  (c.answer calls, { c with calls })

end Hledac.Knowledge
