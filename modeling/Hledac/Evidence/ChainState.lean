import Hledac.Lib.HashChain
import Hledac.Evidence.LogSpec

/-!
# The hash chain behind the log

How the texts hashed for the log form a chain in the sense of `Hledac.Lib.HashChain`: each text
starts with the head before it, up to the first colon. SHA-256 enters only as a function without
collisions on the texts a run has hashed.
-/

namespace Hledac.Evidence

open Hledac.Lib Hledac.Py Raising

variable {c : Codecs} {cfg : LogConfig}

/-- The chain head a hashed text starts with. -/
def headOf (text : String) : String := String.ofList (text.toList.takeWhile (· ≠ ':'))

theorem isHex_of_mem_sha256Text {text : String} {ch : Char}
    (h : ch ∈ (sha256Text text).toList) : Digest.IsHex ch :=
  Digest.isHex_of_mem_sha256 _ ch h

theorem headOf_chainInput (text contentHash eventId : String) :
    headOf (chainInput (sha256Text text) contentHash eventId) = sha256Text text := by
  have hne : ∀ ch ∈ (sha256Text text).toList, decide (ch ≠ ':') = true := by
    intro ch hch
    have hex := isHex_of_mem_sha256Text hch
    rw [decide_eq_true_iff]
    rintro rfl
    revert hex
    decide
  have hl : (chainInput (sha256Text text) contentHash eventId).toList =
      (sha256Text text).toList ++ ':' :: (contentHash.toList ++ ':' :: eventId.toList) := by
    simp [chainInput, String.toList_append]
  rw [headOf, hl, List.takeWhile_append_of_pos hne, List.takeWhile_cons_of_neg (by decide),
    List.append_nil, String.ofList_toList]

theorem headOf_genesisInput_ne (runId text : String) :
    headOf (genesisInput runId) ≠ sha256Text text := by
  intro h
  have hg : 'G' ∈ (headOf (genesisInput runId)).toList := by
    have hl : (genesisInput runId).toList = "GENESIS:".toList ++ runId.toList := by
      simp [genesisInput, String.toList_append]
    rw [headOf, hl, String.toList_ofList]
    simp
  rw [h] at hg
  have := isHex_of_mem_sha256Text hg
  revert this
  decide

/-- SHA-256 has no collision among the genesis text and the texts hashed so far. -/
def CollisionFree (cfg : LogConfig) (s : EvidenceLog) : Prop :=
  ∀ x ∈ genesisInput cfg.runId :: s.history.digested,
    ∀ y ∈ genesisInput cfg.runId :: s.history.digested, sha256Text x = sha256Text y → x = y

instance (s : EvidenceLog) : Decidable (CollisionFree cfg s) :=
  inferInstanceAs (Decidable (∀ x ∈ _, ∀ y ∈ _, _ → _))

/-- Every chain head is the digest of a text. -/
def IsDigest (head : String) : Prop := ∃ text, head = sha256Text text

theorem isDigest_genesisHash (runId : String) : IsDigest (genesisHash runId) := ⟨_, rfl⟩

theorem isDigest_computeChainHash (head contentHash eventId : String) :
    IsDigest (computeChainHash head contentHash eventId) := ⟨_, rfl⟩

theorem IsDigest.headOf_chainInput {head : String} (h : IsDigest head)
    (contentHash eventId : String) : headOf (chainInput head contentHash eventId) = head := by
  obtain ⟨text, rfl⟩ := h
  exact Evidence.headOf_chainInput text contentHash eventId

theorem IsDigest.ne_empty {head : String} (h : IsDigest head) : head ≠ "" := by
  obtain ⟨text, rfl⟩ := h
  intro he
  have := Digest.length_sha256 (encode text)
  rw [sha256Text] at he
  rw [he] at this
  exact absurd this (by decide)

theorem nodup_heads_of_isChain {runId : String} {xs : List String}
    (hc : HashChain.IsChain sha256Text headOf (genesisHash runId) xs)
    (hf : ∀ x ∈ genesisInput runId :: xs, ∀ y ∈ genesisInput runId :: xs,
      sha256Text x = sha256Text y → x = y) :
    (HashChain.heads sha256Text (genesisHash runId) xs).Nodup := by
  refine hc.nodup_heads (fun x hx y hy hxy => ?_) fun x hx he => ?_
  · exact hf x (List.mem_cons_of_mem _ hx) y (List.mem_cons_of_mem _ hy) hxy
  · -- the text that hashed to the genesis hash would be the genesis text
    have hxg := hf x (List.mem_cons_of_mem _ hx) _ List.mem_cons_self he
    obtain ⟨i, hi, hxi⟩ := List.getElem_of_mem hx
    have hd := hc.dec_getElem i hi
    have hmem : headOf x ∈ HashChain.heads sha256Text (genesisHash runId) xs := by
      rw [← hxi]
      exact List.mem_of_getElem? hd
    rcases List.mem_cons.1 hmem with hg | hm
    · rw [hxg] at hg
      exact headOf_genesisInput_ne runId (genesisInput runId) hg
    · obtain ⟨y, _, hy⟩ := List.mem_map.1 hm
      rw [hxg] at hy
      exact headOf_genesisInput_ne runId y hy.symm

/-- The texts hashed so far form a chain that starts at genesis and ends at the chain head. -/
structure Chained (cfg : LogConfig) (s : EvidenceLog) : Prop where
  isChain : HashChain.IsChain sha256Text headOf (genesisHash cfg.runId) s.history.digested
  chainHead_eq : s.chainHead =
    HashChain.last sha256Text (genesisHash cfg.runId) s.history.digested

theorem chained_fresh : Chained cfg (EvidenceLog.fresh cfg) := ⟨trivial, rfl⟩

theorem Chained.isDigest {s : EvidenceLog} (h : Chained cfg s) : IsDigest s.chainHead := by
  have hm := HashChain.last_mem_heads (H := sha256Text) (genesisHash cfg.runId)
    s.history.digested
  rw [← h.chainHead_eq] at hm
  rcases List.mem_cons.1 hm with hg | hm
  · exact ⟨_, hg⟩
  · obtain ⟨y, _, hy⟩ := List.mem_map.1 hm
    exact ⟨y, hy.symm⟩

theorem Chained.nodup_heads {s : EvidenceLog} (h : Chained cfg s) (hf : CollisionFree cfg s) :
    (HashChain.heads sha256Text (genesisHash cfg.runId) s.history.digested).Nodup :=
  nodup_heads_of_isChain h.isChain hf

theorem Chained.hash {s t : EvidenceLog} (h : Chained cfg s) (contentHash eventId : String)
    (hd : t.history.digested =
      s.history.digested ++ [chainInput s.chainHead contentHash eventId])
    (ht : t.chainHead = computeChainHash s.chainHead contentHash eventId) : Chained cfg t := by
  constructor
  · rw [hd]
    refine HashChain.isChain_concat.2 ⟨h.isChain, ?_⟩
    rw [h.isDigest.headOf_chainInput, h.chainHead_eq]
  · rw [hd, ht, HashChain.last_concat]
    rfl

theorem Chained.advance {s : EvidenceLog} (h : Chained cfg s) (event : EvidenceEvent) :
    Chained cfg (s.advance event) :=
  h.hash event.contentHash event.eventId rfl rfl

theorem Chained.congr {s t : EvidenceLog} (h : Chained cfg s) (ht : t.chainHead = s.chainHead)
    (hd : t.history.digested = s.history.digested) : Chained cfg t := by
  constructor
  · rw [hd]
    exact h.isChain
  · rw [hd, ht]
    exact h.chainHead_eq

theorem chained_step_append {s : EvidenceLog} (h : Chained cfg s) (op : Op)
    (hb : ¬ op.IsBatch) : Chained cfg (step c cfg s op) := by
  have hlinked : ∀ event, Chained cfg (s.linked event) := fun event =>
    h.hash event.contentHash event.eventId rfl rfl
  have hdel : ∀ env event, Chained cfg
      ((s.linked event).delivered cfg env (s.linkedEvent event)) := by
    intro env event
    exact (hlinked event).congr (chainHead_delivered _ _ _ _) (by rw [delivered_eq])
  exact step_append_invariant hb h hlinked hdel fun env event contentHash _ =>
    ((hdel env event).advance _).congr (chainHead_updateIndexes _ _) (by rw [history_updateIndexes]; rfl)

end Hledac.Evidence
