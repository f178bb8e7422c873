import Hledac.Evidence.ChannelRuns

/-!
# Encryption at rest

The bytes that a log hands to the persist channel and to the file. Three places make them: an append, which
asks the encryptor for its tag too early; a batch; and the synchronous fallback. Each of the first two goes
on with the readable line when an operation of the cipher raises.
-/

namespace Hledac.Evidence

open Hledac.Lib Hledac.Py Raising

/-! ### AES-GCM -/

/-- What AES-GCM makes of a text under a key and a nonce, and its tag. -/
structure Gcm where
  encrypt : Bytes → Bytes → Bytes → Bytes
  tag : Bytes → Bytes → Bytes → Bytes
  length_encrypt : ∀ key nonce text, (encrypt key nonce text).length = text.length
  length_tag : ∀ key nonce text, (tag key nonce text).length = 16

/-- The operations of an encryption that can raise. -/
inductive CipherOp where
  | imports
  | tokenBytes
  | cipher
  | encryptor
  | update
  | finalize
  deriving DecidableEq

inductive CipherError where
  | raised (op : CipherOp)
  | keySize
  | notYetFinalized
  | alreadyFinalized

/-- What one encryption meets: the nonce that is drawn, and the operation that raises, if one does. -/
structure Attempt where
  nonce : Bytes
  length_nonce : nonce.length = 12
  fault : Option CipherOp := none

/-- The operation goes through, unless it is the one that raises. -/
def Attempt.perform (a : Attempt) (op : CipherOp) : Except CipherError Unit :=
  if a.fault = some op then .error (.raised op) else .ok ()

/-- An encryptor: what it has been given to encrypt, and whether it is finalized. -/
structure Encryptor where
  key : Bytes
  nonce : Bytes
  text : Bytes := []
  finalized : Bool := false

namespace Encryptor

/-- The key sizes of AES in this mode. -/
def keySizes : List Nat := [16, 24, 32]

/-- `Cipher(algorithms.AES(key), modes.GCM(nonce)).encryptor()`, after the import and the nonce. -/
def open? (a : Attempt) (key : Bytes) : Except CipherError Encryptor := do
  a.perform .imports
  a.perform .tokenBytes
  if key.length ∉ keySizes then throw .keySize
  a.perform .cipher
  a.perform .encryptor
  return { key := key, nonce := a.nonce }

/-- `encryptor.update(data)`. -/
def update (gcm : Gcm) (a : Attempt) (e : Encryptor) (data : Bytes) :
    Except CipherError (Bytes × Encryptor) := do
  if e.finalized then throw .alreadyFinalized
  a.perform .update
  return ((gcm.encrypt e.key e.nonce (e.text ++ data)).drop e.text.length, { e with text := e.text ++ data })

/-- `encryptor.finalize()`. -/
def finalize (a : Attempt) (e : Encryptor) : Except CipherError (Bytes × Encryptor) := do
  if e.finalized then throw .alreadyFinalized
  a.perform .finalize
  return ([], { e with finalized := true })

/-- `encryptor.tag`, which there is only once it is finalized. -/
def tag (gcm : Gcm) (e : Encryptor) : Except CipherError Bytes :=
  if e.finalized then .ok (gcm.tag e.key e.nonce e.text) else .error .notYetFinalized

end Encryptor

/-! ### The writers -/

/-- What the constructor finds: the key of the environment, the temporary one that `token_bytes` would draw, and
whether the cipher package can be imported. -/
structure Setup where
  environ : Bytes
  temporary : Bytes
  length_temporary : temporary.length = 32
  available : Bool

/-- `_encrypt_at_rest`, `_cipher` and `_encryption_key`. -/
structure Encryption where
  encryptAtRest : Bool
  cipher : Bool
  key : Bytes
  deriving DecidableEq

namespace Encryption

/-- The constructor and `_init_encryption`; `_log.py:1999-2005, 2787-2799`. -/
def init (encryptAtRest : Bool) (setup : Setup) : Encryption :=
  if encryptAtRest then
    { encryptAtRest := setup.available
      cipher := setup.available
      key := if setup.environ = [] then setup.temporary else setup.environ }
  else { encryptAtRest := false, cipher := false, key := [] }

/-- `self._encrypt_at_rest and self._cipher and self._encryption_key`. -/
def ready (enc : Encryption) : Bool := enc.encryptAtRest && enc.cipher && !enc.key.isEmpty

/-- A line with its line feed, in plain text. -/
def plain (line : Bytes) : Bytes := line ++ encode "\n"

/-- The encryption in `_persist_event`: the tag is read first; `_log.py:2917-2922`. -/
def sealTagFirst (gcm : Gcm) (enc : Encryption) (a : Attempt) (text : Bytes) : Except CipherError Bytes := do
  let e ← Encryptor.open? a enc.key
  let tag ← e.tag gcm
  let (out, e) ← e.update gcm a text
  let (rest, _) ← e.finalize a
  return a.nonce ++ tag ++ out ++ rest

/-- The encryption in `_encrypt_event_line`; `_log.py:3164-3172`. -/
def sealTagLast (gcm : Gcm) (enc : Encryption) (a : Attempt) (text : Bytes) : Except CipherError Bytes := do
  let e ← Encryptor.open? a enc.key
  let (out, e) ← e.update gcm a text
  let (rest, e) ← e.finalize a
  let tag ← e.tag gcm
  return a.nonce ++ tag ++ (out ++ rest)

/-- The bytes of `_persist_event`; `_log.py:2914-2924`. -/
def persistEvent (gcm : Gcm) (enc : Encryption) (a : Attempt) (line : Bytes) : Bytes :=
  if enc.ready then
    match sealTagFirst gcm enc a (plain line) with
    | .ok bytes => bytes
    | .error _ => plain line
  else plain line

/-- `_encrypt_event_line`; `_log.py:3160-3175`. -/
def encryptEventLine (gcm : Gcm) (enc : Encryption) (a : Attempt) (line : Bytes) : Bytes :=
  if enc.ready then
    match sealTagLast gcm enc a (plain line) with
    | .ok bytes => bytes
    | .error _ => plain line
  else plain line

/-- What `_sync_write_fallback` writes; `_log.py:2449-2460`. -/
def syncWrite (enc : Encryption) (line bytesToWrite : Bytes) : Bytes :=
  if enc.encryptAtRest then bytesToWrite else plain line

end Encryption

/-! ### What the writers make of a line -/

section Writers

variable {gcm : Gcm} {enc : Encryption} {a : Attempt}

theorem perform_eq_ok_iff (op : CipherOp) {u : PUnit} : a.perform op = .ok u ↔ a.fault ≠ some op := by
  rw [Attempt.perform]
  by_cases h : a.fault = some op
  · simp [h]
  · simp [h]

theorem open?_eq_ok_iff {key : Bytes} {e : Encryptor} : Encryptor.open? a key = .ok e ↔
    a.fault ≠ some .imports ∧ a.fault ≠ some .tokenBytes ∧ key.length ∈ Encryptor.keySizes ∧
      a.fault ≠ some .cipher ∧ a.fault ≠ some .encryptor ∧ e = { key := key, nonce := a.nonce } := by
  by_cases hkey : key.length ∈ Encryptor.keySizes
  · simp [Encryptor.open?, hkey, bind_eq_ok_iff, perform_eq_ok_iff, pure, Except.pure, @eq_comm _ _ e]
  · simp [Encryptor.open?, hkey, bind_eq_ok_iff, throw, throwThe, MonadExceptOf.throw]

theorem sealTagFirst_ne_ok (gcm : Gcm) (enc : Encryption) (a : Attempt) (text bytes : Bytes) :
    enc.sealTagFirst gcm a text ≠ .ok bytes := by
  intro h
  rw [Encryption.sealTagFirst, bind_eq_ok_iff] at h
  obtain ⟨e, hopen, h⟩ := h
  rw [bind_eq_ok_iff] at h
  obtain ⟨tag, htag, -⟩ := h
  rw [(open?_eq_ok_iff.1 hopen).2.2.2.2.2] at htag
  cases htag

theorem persistEvent_eq_plain (gcm : Gcm) (enc : Encryption) (a : Attempt) (line : Bytes) :
    enc.persistEvent gcm a line = Encryption.plain line := by
  rw [Encryption.persistEvent]
  split
  · cases h : enc.sealTagFirst gcm a (Encryption.plain line) with
    | ok bytes => exact absurd h (sealTagFirst_ne_ok gcm enc a _ bytes)
    | error err => rfl
  · rfl

/-- The condition on an encryption: the writer is ready, the key has a size of AES, and no operation raises. -/
def Encryption.Seals (enc : Encryption) (a : Attempt) : Prop :=
  enc.ready = true ∧ enc.key.length ∈ Encryptor.keySizes ∧ a.fault = none

theorem sealTagLast_of_seals (h : enc.Seals a) (gcm : Gcm) (text : Bytes) :
    enc.sealTagLast gcm a text =
      .ok (a.nonce ++ gcm.tag enc.key a.nonce text ++ gcm.encrypt enc.key a.nonce text) := by
  have hperform : ∀ op, a.perform op = .ok () := by
    intro op
    rw [perform_eq_ok_iff, h.2.2]
    exact fun hsome => by cases hsome
  have hopen : Encryptor.open? a enc.key = .ok { key := enc.key, nonce := a.nonce } := by
    rw [open?_eq_ok_iff, h.2.2]
    simp [h.2.1]
  simp [Encryption.sealTagLast, hopen, Encryptor.update, Encryptor.finalize, Encryptor.tag, hperform, bind,
    Except.bind, pure, Except.pure]

theorem seals_of_sealTagLast {text bytes : Bytes} (hready : enc.ready = true)
    (h : enc.sealTagLast gcm a text = .ok bytes) : enc.Seals a := by
  rw [Encryption.sealTagLast, bind_eq_ok_iff] at h
  obtain ⟨e, hopen, h⟩ := h
  obtain ⟨himports, htoken, hkey, hcipher, hencryptor, rfl⟩ := open?_eq_ok_iff.1 hopen
  rw [bind_eq_ok_iff] at h
  obtain ⟨out, hupdate, h⟩ := h
  rw [bind_eq_ok_iff] at h
  obtain ⟨rest, hfinalize, -⟩ := h
  have hu : a.fault ≠ some .update := by
    intro hfault
    simp [Encryptor.update, Attempt.perform, hfault, bind, Except.bind] at hupdate
  have hf : a.fault ≠ some .finalize := by
    intro hfault
    simp only [Encryptor.finalize, Attempt.perform, hfault, bind, Except.bind] at hfinalize
    split at hfinalize
    · cases hfinalize
    · cases hfinalize
  refine ⟨hready, hkey, ?_⟩
  cases hfault : a.fault with
  | none => rfl
  | some op => cases op <;> contradiction

theorem encryptEventLine_of_seals (h : enc.Seals a) (gcm : Gcm) (line : Bytes) :
    enc.encryptEventLine gcm a line = a.nonce ++ gcm.tag enc.key a.nonce (Encryption.plain line) ++
      gcm.encrypt enc.key a.nonce (Encryption.plain line) := by
  rw [Encryption.encryptEventLine, if_pos h.1, sealTagLast_of_seals h]

theorem encryptEventLine_of_not_seals (h : ¬ enc.Seals a) (gcm : Gcm) (line : Bytes) :
    enc.encryptEventLine gcm a line = Encryption.plain line := by
  rw [Encryption.encryptEventLine]
  split
  · next hready =>
    cases hx : enc.sealTagLast gcm a (Encryption.plain line) with
    | ok bytes => exact absurd (seals_of_sealTagLast hready hx) h
    | error err => rfl
  · rfl

theorem syncWrite_encryptEventLine (gcm : Gcm) (enc : Encryption) (a : Attempt) (line : Bytes) :
    enc.syncWrite line (enc.encryptEventLine gcm a line) = enc.encryptEventLine gcm a line := by
  rw [Encryption.syncWrite]
  split
  · rfl
  · next hrest =>
    rw [encryptEventLine_of_not_seals]
    intro h
    have hready := h.1
    simp [Encryption.ready, hrest] at hready

end Writers

/-! ### What a call hands over -/

/-- A line, and the bytes that are handed over for it. -/
structure HandOver where
  line : Bytes
  bytes : Bytes
  deriving DecidableEq

/-- A call with the encryptions that it may make. -/
structure SecretCall where
  call : Call
  attempts : Nat → Attempt

section

variable (gcm : Gcm) (enc : Encryption)

/-- The hand-overs of `_persist_event`. -/
def Channels.persistLine (ch : Channels) (a : Attempt) (line : Bytes) : List HandOver :=
  let bytes := enc.persistEvent gcm a line
  ⟨line, bytes⟩ ::
    if ch.mpsc2.send then [] else if ch.persistFile then [⟨line, enc.syncWrite line bytes⟩] else []

/-- The lines encrypted one by one, from an encryption on. -/
def encryptLines (attempts : Nat → Attempt) : Nat → List Bytes → List HandOver
  | _, [] => []
  | i, line :: lines => ⟨line, enc.encryptEventLine gcm (attempts i) line⟩ :: encryptLines attempts (i + 1) lines

/-- The hand-overs of `_send_to_mpsc_channels`: the whole batch goes to the channel, and what that does not
take is encrypted again and written. -/
def Channels.persistLines (ch : Channels) (attempts : Nat → Attempt) (lines : List Bytes) : List HandOver :=
  encryptLines gcm enc attempts 0 lines ++
    if ch.persistFile then
      (encryptLines gcm enc attempts lines.length (lines.drop (ch.mpsc2.sendBatch lines.length))).map
        fun h => ⟨h.line, enc.syncWrite h.line h.bytes⟩
    else []

/-- What a call hands to the persist channel and to the file. -/
def handedBytes (c : Codecs) (cfg : LogConfig) (s : EvidenceLog) (call : SecretCall) : List HandOver :=
  match call.call with
  | .append env event ch =>
    if (validateEvent cfg (ch.env env) event).isOk && (sendToMpsc c env (s.linkedEvent event)).isOk &&
        cfg.enablePersist then
      match (s.linkedEvent event).toJsonlLine c with
      | .ok line => ch.persistLine gcm enc (call.attempts 0) line
      | .error _ => []
    else []
  | .createEventsBatch items ch =>
    if Reaches c cfg s items ch && !ch.checkBackpressure cfg && cfg.enablePersist then
      match (createdEvents c cfg s items).mapM (·.toJsonlLine c) with
      | .ok lines => ch.persistLines gcm enc call.attempts lines
      | .error _ => []
    else []

end

/-- Nonce, tag and ciphertext of the line. -/
def Sealed (gcm : Gcm) (key : Bytes) (h : HandOver) : Prop :=
  ∃ nonce : Bytes, nonce.length = 12 ∧
    h.bytes = nonce ++ gcm.tag key nonce (Encryption.plain h.line) ++
      gcm.encrypt key nonce (Encryption.plain h.line)

/-! ### What is sealed -/

section Spec

variable {gcm : Gcm} {enc : Encryption} {attempts : Nat → Attempt} {c : Codecs} {cfg : LogConfig}
  {s : EvidenceLog} {items : List BatchItem} {ch : Channels}

theorem Sealed.length {key : Bytes} {h : HandOver} (hs : Sealed gcm key h) :
    h.bytes.length = (Encryption.plain h.line).length + 28 := by
  obtain ⟨nonce, hnonce, hbytes⟩ := hs
  rw [hbytes, List.length_append, List.length_append, hnonce, gcm.length_tag, gcm.length_encrypt]
  omega

theorem not_sealed_plain (gcm : Gcm) (key line : Bytes) : ¬ Sealed gcm key ⟨line, Encryption.plain line⟩ := by
  intro hs
  have hlength : (Encryption.plain line).length = (Encryption.plain line).length + 28 := hs.length
  omega

theorem sealed_encryptEventLine_iff {a : Attempt} (line : Bytes) :
    Sealed gcm enc.key ⟨line, enc.encryptEventLine gcm a line⟩ ↔ enc.Seals a := by
  by_cases h : enc.Seals a
  · exact iff_of_true ⟨a.nonce, a.length_nonce, encryptEventLine_of_seals h gcm line⟩ h
  · rw [encryptEventLine_of_not_seals h]
    exact iff_of_false (not_sealed_plain gcm enc.key line) h

theorem forall_encryptLines (lines : List Bytes) (i : Nat) :
    (∀ h ∈ encryptLines gcm enc attempts i lines, Sealed gcm enc.key h) ↔
      ∀ j < lines.length, enc.Seals (attempts (i + j)) := by
  induction lines generalizing i with
  | nil => exact iff_of_true (fun h hmem => by cases hmem) fun j hj => by cases hj
  | cons line rest ih =>
    rw [encryptLines, List.forall_mem_cons, sealed_encryptEventLine_iff, ih, List.length_cons]
    constructor
    · intro h j hj
      cases j with
      | zero => exact h.1
      | succ j =>
        have hnext := h.2 j (by omega)
        rwa [Nat.add_assoc, Nat.add_comm 1 j] at hnext
    · intro h
      refine ⟨h 0 (by omega), fun j hj => ?_⟩
      have hnext := h (j + 1) (by omega)
      rwa [Nat.add_assoc, Nat.add_comm 1 j]

theorem map_syncWrite_encryptLines (lines : List Bytes) (i : Nat) :
    (encryptLines gcm enc attempts i lines).map (fun h => ⟨h.line, enc.syncWrite h.line h.bytes⟩) =
      encryptLines gcm enc attempts i lines := by
  induction lines generalizing i with
  | nil => rfl
  | cons line rest ih => rw [encryptLines, List.map_cons, ih, syncWrite_encryptEventLine]

/-- How many encryptions of a batch are handed over. -/
def Channels.encryptions (ch : Channels) (lines : Nat) : Nat :=
  lines + if ch.persistFile then lines - ch.mpsc2.room else 0

theorem forall_persistLines (ch : Channels) (lines : List Bytes) :
    (∀ h ∈ ch.persistLines gcm enc attempts lines, Sealed gcm enc.key h) ↔
      ∀ j < ch.encryptions lines.length, enc.Seals (attempts j) := by
  have hdrop : (lines.drop (ch.mpsc2.sendBatch lines.length)).length = lines.length - ch.mpsc2.room := by
    rw [List.length_drop, MpscBytes.sendBatch]
    omega
  rw [Channels.persistLines, List.forall_mem_append, forall_encryptLines, Channels.encryptions]
  by_cases hfile : ch.persistFile = true
  · rw [if_pos hfile, if_pos hfile, map_syncWrite_encryptLines, forall_encryptLines, hdrop]
    constructor
    · intro h j hj
      by_cases hlt : j < lines.length
      · simpa using h.1 j hlt
      · have hnext := h.2 (j - lines.length) (by omega)
        rwa [Nat.add_sub_cancel' (Nat.le_of_not_lt hlt)] at hnext
    · intro h
      refine ⟨fun j hj => ?_, fun j hj => h _ (by omega)⟩
      rw [Nat.zero_add]
      exact h j (by omega)
  · rw [if_neg hfile, if_neg hfile]
    simp

end Spec

end Hledac.Evidence
