import Hledac.Utils.JsonlWriter

/-!
# Which accepted lines are written

A line that gets into the queue behind the `None` of `close` is accepted and never written. The threshold of the
compressor is compared with a number that has just been set to zero, and frames end without a line end. Runs in which
none of the three matters write every accepted line once, in order, to the file it belongs to.
-/

namespace Hledac.Utils

open Hledac.Lib Hledac.Py

/-- The text of one object: UTF-8, not empty, on one line. -/
structure IsLine (line : Bytes) : Prop where
  nonempty : line ≠ []
  oneLine : lineEnd ∉ line
  utf8 : ∃ text, line = encode text

/-- What the encoders and the compressor promise. -/
structure JsonlLaws {Obj : Type} (cfg : JsonlSettings Obj) (decompress : Bytes → Bytes) : Prop where
  json : ∀ obj line, cfg.jsonEncode obj = .ok line → IsLine line
  orjson : ∀ obj line, cfg.orjsonDumps obj = .ok line → IsLine line
  lz4 : ∀ bytes, decompress (cfg.lz4Compress bytes) = bytes

/-- The length of the lines together. -/
def totalLength (lines : List Bytes) : Nat := (lines.map List.length).sum

namespace LZ4JSONLWriter

variable {Obj : Type} {cfg : JsonlSettings Obj} {decompress : Bytes → Bytes} {w : LZ4JSONLWriter}

theorem isLine_encodeLine (laws : JsonlLaws cfg decompress) {obj : Obj} {line : Bytes}
    (h : encodeLine cfg obj = .ok line) : IsLine line := by
  rw [encodeLine] at h
  split at h
  · next hjson =>
    rw [← Except.ok.inj h]
    exact laws.json obj _ hjson
  · exact laws.orjson obj line h

/-! ### Careful runs -/

/-- The batch that a round of the loop flushes. -/
def flushed? (cfg : JsonlSettings Obj) (w : LZ4JSONLWriter) : Option (List Bytes) :=
  match w.writerTask, w.queue with
  | .looping, none :: _ => if w.pendingLines = [] then none else some w.pendingLines
  | .looping, some item :: _ => if (w.pend item).batchDue cfg then some (w.pendingLines ++ [item]) else none
  | _, _ => none

/-- The code puts the batch where it belongs, and no second frame follows the first: without compression every batch is
fine, with a threshold of at most zero the first one, with a larger one those below it. -/
def FlushFine (cfg : JsonlSettings Obj) (w : LZ4JSONLWriter) (lines : List Bytes) : Prop :=
  cfg.compress = true →
    if cfg.minCompress ≤ 0 then w.fileZst = [] else (totalLength lines : ℤ) < cfg.minCompress

/-- No line gets into the queue behind the `None` of `close`, and each batch is fine. -/
def Careful (cfg : JsonlSettings Obj) (w : LZ4JSONLWriter) : WriterEvent Obj → Prop
  | .proceed call => (∃ p ∈ w.putters, p.1 = call) → w.full cfg = false →
      w.closePhase = .notCalled ∨ w.closePhase = .putting
  | .get => ∀ lines, w.flushed? cfg = some lines → FlushFine cfg w lines
  | _ => True

/-! ### The way of a line -/

/-- The lines that the thread has. -/
def inThread (w : LZ4JSONLWriter) : List Bytes :=
  match w.writerTask with
  | .compressing lines _ => lines
  | _ => []

/-- The `None` of `close` has been taken out of the queue. -/
def taken (w : LZ4JSONLWriter) : Bool :=
  match w.writerTask with
  | .compressing _ last => last
  | .ended => true
  | _ => false

/-- Accepted lines are in a batch, with the thread, pending or in the queue, in this order. Nothing is behind the `None`
of `close`, and where it has been taken nothing is left. -/
structure Flows (taken : Bool) (w : LZ4JSONLWriter) : Prop where
  lines : ∀ l ∈ w.accepted, IsLine l
  putters : ∀ p ∈ w.putters, IsLine p.2
  fresh : w.closed = false → w.closePhase = .notCalled
  absent : w.writerTask = .absent →
    w.accepted = [] ∧ w.putters = [] ∧ w.queue = [] ∧ w.closePhase ≠ .putting
  order : w.accepted =
    w.batches.flatMap Prod.snd ++ (w.inThread ++ (w.pendingLines ++ w.queue.filterMap id))
  before : w.closePhase = .notCalled ∨ w.closePhase = .putting → none ∉ w.queue ∧ taken = false
  behind : w.closePhase = .joining → w.writerTask ≠ .absent ∧
    if taken then w.queue = [] else ∃ ls, none ∉ ls ∧ w.queue = ls ++ [none]
  returned : w.closePhase = .returned → w.writerTask = .absent ∨ w.writerTask = .ended
  ended : w.writerTask = .ended → w.queue = []
  idle : w.writerTask ≠ .looping → w.pendingLines = []

/-- The way of the lines in the writer as it is. -/
abbrev Flowing (w : LZ4JSONLWriter) : Prop := w.Flows w.taken

theorem flowing_new : Flowing {} where
  lines _ h := absurd h List.not_mem_nil
  putters _ h := absurd h List.not_mem_nil
  fresh _ := rfl
  absent _ := ⟨rfl, rfl, rfl, nofun⟩
  order := rfl
  before _ := ⟨List.not_mem_nil, rfl⟩
  behind h := nomatch h
  returned h := nomatch h
  ended h := nomatch h
  idle _ := rfl

theorem Flowing.putLine (h : w.Flowing) {line : Bytes} (hline : IsLine line) (htask : w.writerTask ≠ .absent)
    (hphase : w.closePhase = .notCalled ∨ w.closePhase = .putting) : (w.putLine line).Flowing := by
  obtain ⟨hnone, htaken⟩ := h.before hphase
  constructor
  · intro l hl
    cases List.mem_append.1 hl with
    | inl hl => exact h.lines l hl
    | inr hl => rwa [List.mem_singleton.1 hl]
  · exact h.putters
  · exact h.fresh
  · exact fun habsent => absurd habsent htask
  · show w.accepted ++ [line] = _
    rw [h.order]
    simp [LZ4JSONLWriter.putLine, inThread]
  · refine fun _ => ⟨fun hmem => ?_, htaken⟩
    cases List.mem_append.1 hmem with
    | inl hmem => exact hnone hmem
    | inr hmem => cases List.mem_singleton.1 hmem
  · intro hjoin
    have hjoin' : w.closePhase = .joining := hjoin
    simp [hjoin'] at hphase
  · exact h.returned
  · intro hended
    have hended' : w.writerTask = .ended := hended
    simp [taken, hended'] at htaken
  · exact h.idle

theorem Flowing.ensureWriterStarted (h : w.Flowing) (hopen : w.closed = false) : w.ensureWriterStarted.Flowing := by
  rw [LZ4JSONLWriter.ensureWriterStarted]
  split
  · next habsent =>
    have hthread : w.inThread = [] := by rw [inThread, habsent]
    have hphase := h.fresh hopen
    constructor
    · exact h.lines
    · exact h.putters
    · exact h.fresh
    · exact fun hc => nomatch hc
    · have horder := h.order
      rw [hthread] at horder
      exact horder
    · exact fun hp => ⟨(h.before hp).1, rfl⟩
    · intro hjoin
      have hjoin' : w.closePhase = .joining := hjoin
      simp [hjoin'] at hphase
    · intro hret
      have hret' : w.closePhase = .returned := hret
      simp [hret'] at hphase
    · exact fun hc => nomatch hc
    · exact fun hne => absurd rfl hne
  · exact h

theorem Flowing.withPutters (h : w.Flowing) {ps : List (Nat × Bytes)} (hps : ∀ p ∈ ps, IsLine p.2)
    (habsent : w.writerTask = .absent → ps = []) : Flowing { w with putters := ps } where
  lines := h.lines
  putters := hps
  fresh := h.fresh
  absent ht := ⟨(h.absent ht).1, habsent ht, (h.absent ht).2.2⟩
  order := h.order
  before := h.before
  behind := h.behind
  returned := h.returned
  ended := h.ended
  idle := h.idle

theorem Flowing.writeLine (laws : JsonlLaws cfg decompress) (h : w.Flowing) (call : Nat) (obj : Obj) :
    (w.writeLine cfg call obj).Flowing := by
  rw [LZ4JSONLWriter.writeLine]
  split
  · exact h
  next hopen =>
  rw [Bool.not_eq_true] at hopen
  split
  · exact h
  next line hline =>
  have hstarted := h.ensureWriterStarted hopen
  have htask : w.ensureWriterStarted.writerTask ≠ .absent := by
    rw [LZ4JSONLWriter.ensureWriterStarted]
    split
    · exact fun hc => nomatch hc
    · next hne => exact hne
  have hphase : w.ensureWriterStarted.closePhase = .notCalled := by
    rw [LZ4JSONLWriter.ensureWriterStarted]
    split
    · exact h.fresh hopen
    · exact h.fresh hopen
  have hisLine := isLine_encodeLine laws hline
  dsimp only
  split
  · apply hstarted.withPutters
    · intro p hp
      cases List.mem_append.1 hp with
      | inl hp => exact hstarted.putters p hp
      | inr hp => rwa [List.mem_singleton.1 hp]
    · exact fun habsent => absurd habsent htask
  · exact hstarted.putLine hisLine htask (.inl hphase)

theorem Flowing.proceed (h : w.Flowing) {call : Nat} (hcareful : w.Careful cfg (.proceed call)) :
    (w.proceed cfg call).Flowing := by
  rw [LZ4JSONLWriter.proceed]
  split
  · exact h
  next p hp =>
  split
  · exact h
  next hroom =>
  rw [Bool.not_eq_true] at hroom
  have hmem := List.mem_of_find?_eq_some hp
  have hcall : p.1 = call := by simpa using List.find?_some hp
  have htask : w.writerTask ≠ .absent := by
    intro habsent
    rw [(h.absent habsent).2.1] at hmem
    cases hmem
  have hfewer : Flowing { w with putters := w.putters.erase p } :=
    h.withPutters (fun p' hp' => h.putters p' (List.mem_of_mem_erase hp')) fun habsent => absurd habsent htask
  exact hfewer.putLine (h.putters p hmem) htask (hcareful ⟨p, hmem, hcall⟩ hroom)

theorem Flowing.giveUp (h : w.Flowing) (call : Nat) : (w.giveUp call).Flowing := by
  apply h.withPutters
  · exact fun p hp => h.putters p (List.mem_of_mem_filter hp)
  · intro habsent
    rw [(h.absent habsent).2.1]
    rfl

theorem Flowing.putSentinel (h : w.Flowing) (hclosed : w.closed = true) (htask : w.writerTask ≠ .absent)
    (hphase : w.closePhase = .notCalled ∨ w.closePhase = .putting) : w.putSentinel.Flowing := by
  obtain ⟨hnone, htaken⟩ := h.before hphase
  have htaken' : w.putSentinel.taken = false := htaken
  constructor
  · exact h.lines
  · exact h.putters
  · intro hopen
    rw [show w.putSentinel.closed = w.closed from rfl, hclosed] at hopen
    cases hopen
  · exact fun habsent => absurd habsent htask
  · show w.accepted = _
    rw [h.order]
    simp [LZ4JSONLWriter.putSentinel, inThread]
  · intro hp
    cases hp with
    | inl hp => cases hp
    | inr hp => cases hp
  · intro _
    rw [htaken']
    exact ⟨htask, w.queue, hnone, rfl⟩
  · exact fun hret => nomatch hret
  · intro hended
    have hended' : w.writerTask = .ended := hended
    simp [taken, hended'] at htaken
  · exact h.idle

theorem Flowing.withPhase (h : w.Flowing) {phase : ClosePhase} (hopen : phase = .putting →
    w.closePhase = .notCalled ∨ w.closePhase = .putting) (hnotCalled : phase ≠ .notCalled) (hjoining : phase ≠ .joining)
    (hreturned : phase = .returned → w.writerTask = .absent ∨ w.writerTask = .ended)
    (hstarted : phase = .putting → w.writerTask ≠ .absent) :
    Flowing { w with closed := true, closePhase := phase } where
  lines := h.lines
  putters := h.putters
  fresh hc := nomatch hc
  absent ht := ⟨(h.absent ht).1, (h.absent ht).2.1, (h.absent ht).2.2.1, fun hp => hstarted hp ht⟩
  order := h.order
  before hp := h.before (hopen (hp.resolve_left hnotCalled))
  behind hp := absurd hp hjoining
  returned := hreturned
  ended := h.ended
  idle := h.idle

theorem Flowing.close (h : w.Flowing) : (w.close cfg).Flowing := by
  rw [LZ4JSONLWriter.close]
  split
  · exact h
  next hopen =>
  rw [Bool.not_eq_true] at hopen
  have hphase := h.fresh hopen
  dsimp only
  split
  · next habsent => exact h.withPhase nofun nofun nofun (fun _ => .inl habsent) nofun
  next htask =>
  split
  · exact h.withPhase (fun _ => .inl hphase) nofun nofun nofun fun _ => htask
  · have hclosed : Flowing { w with closed := true } :=
      ⟨h.lines, h.putters, nofun, h.absent, h.order, h.before, h.behind, h.returned, h.ended, h.idle⟩
    exact hclosed.putSentinel rfl htask (.inl hphase)

theorem Flowing.proceedClose (h : w.Flowing) : (w.proceedClose cfg).Flowing := by
  rw [LZ4JSONLWriter.proceedClose]
  split
  · next hp =>
    have htask : w.writerTask ≠ .absent := fun habsent => (h.absent habsent).2.2.2 hp.1
    have hclosed : w.closed = true := by
      by_contra hopen
      rw [h.fresh (Bool.eq_false_of_not_eq_true hopen)] at hp
      cases hp.1
    exact h.putSentinel hclosed htask (.inr hp.1)
  · exact h

theorem Flowing.closeReturns (h : w.Flowing) : w.closeReturns.Flowing := by
  rw [LZ4JSONLWriter.closeReturns]
  split
  · next hp =>
    constructor
    · exact h.lines
    · exact h.putters
    · intro hopen
      have hphase := h.fresh hopen
      rw [hp.1] at hphase
      cases hphase
    · intro habsent
      rw [show w.writerTask = .ended from hp.2] at habsent
      cases habsent
    · exact h.order
    · exact fun hopen => hopen.elim nofun nofun
    · exact nofun
    · exact fun _ => .inr hp.2
    · exact h.ended
    · exact h.idle
  · exact h

/-! ### The background task -/

theorem Flows.queue_eq_nil (h : w.Flows true) (htask : w.writerTask = .looping) : w.queue = [] := by
  cases hphase : w.closePhase with
  | notCalled => exact absurd (h.before (.inl hphase)).2 nofun
  | putting => exact absurd (h.before (.inr hphase)).2 nofun
  | joining => exact (h.behind hphase).2
  | returned =>
    have hdone := h.returned hphase
    simp [htask] at hdone

theorem Flows.afterFlush {last : Bool} (h : w.Flows last) (htask : w.writerTask = .looping)
    (hpending : w.pendingLines = []) : (w.afterFlush last).Flowing := by
  have htaken : (w.afterFlush last).taken = last := by cases last <;> rfl
  have hthread : w.inThread = [] := by rw [inThread, htask]
  have hthread' : (w.afterFlush last).inThread = [] := by cases last <;> rfl
  have hstarted : (w.afterFlush last).writerTask ≠ .absent := by cases last <;> exact nofun
  rw [Flowing, htaken]
  constructor
  · exact h.lines
  · exact h.putters
  · exact h.fresh
  · exact fun habsent => absurd habsent hstarted
  · have horder := h.order
    rw [hthread] at horder
    rw [hthread']
    exact horder
  · exact h.before
  · exact fun hjoin => ⟨hstarted, (h.behind hjoin).2⟩
  · intro hret
    have hdone := h.returned hret
    simp [htask] at hdone
  · intro hended
    cases last with
    | false => cases hended
    | true => exact h.queue_eq_nil htask
  · exact fun _ => hpending

theorem Flows.flushPending {last : Bool} (h : w.Flows last) (htask : w.writerTask = .looping) :
    (w.flushPending cfg last).Flowing := by
  have hthread : w.inThread = [] := by rw [inThread, htask]
  rw [LZ4JSONLWriter.flushPending]
  split
  · next hempty => exact h.afterFlush htask hempty
  dsimp only
  split
  · -- the batch goes to the thread
    constructor
    · exact h.lines
    · exact h.putters
    · exact h.fresh
    · exact nofun
    · show w.accepted = w.batches.flatMap Prod.snd ++ (w.pendingLines ++ ([] ++ w.queue.filterMap id))
      rw [h.order, hthread]
      rfl
    · exact h.before
    · exact fun hjoin => ⟨nofun, (h.behind hjoin).2⟩
    · intro hret
      have hdone := h.returned hret
      simp [htask] at hdone
    · exact nofun
    · exact fun _ => rfl
  · -- the batch is written at once
    have hwritten : Flows last (writeRawBatch { w with pendingLines := [], pendingBytes := 0 } w.pendingLines) := by
      constructor
      · exact h.lines
      · exact h.putters
      · exact h.fresh
      · exact h.absent
      · show w.accepted = (w.batches ++ [(false, w.pendingLines)]).flatMap Prod.snd ++
          (w.inThread ++ ([] ++ w.queue.filterMap id))
        rw [h.order, hthread]
        simp
      · exact h.before
      · exact h.behind
      · exact h.returned
      · exact h.ended
      · exact fun _ => rfl
    exact hwritten.afterFlush htask rfl

theorem Flowing.takeSentinel (h : w.Flowing) {rest : List (Option Bytes)} (htask : w.writerTask = .looping)
    (hqueue : w.queue = none :: rest) : Flows true { w with queue := rest } := by
  have hopen : ¬ (w.closePhase = .notCalled ∨ w.closePhase = .putting) := by
    intro hphase
    apply (h.before hphase).1
    rw [hqueue]
    exact List.mem_cons_self
  constructor
  · exact h.lines
  · exact h.putters
  · exact h.fresh
  · exact fun habsent => absurd habsent (by simp [htask])
  · have horder := h.order
    rw [hqueue] at horder
    exact horder
  · exact fun hphase => absurd hphase hopen
  · intro hjoin
    obtain ⟨hstarted, hbehind⟩ := h.behind hjoin
    have htaken : w.taken = false := by rw [taken, htask]
    rw [htaken] at hbehind
    obtain ⟨ls, hnone, hls⟩ := hbehind
    refine ⟨hstarted, ?_⟩
    cases ls with
    | nil => exact (List.cons.inj (hqueue.symm.trans hls)).2
    | cons l ls =>
      have hhead := (List.cons.inj (hqueue.symm.trans hls)).1
      rw [← hhead] at hnone
      exact absurd List.mem_cons_self hnone
  · exact h.returned
  · exact fun hended => absurd hended (by simp [htask])
  · exact h.idle

theorem Flowing.takeLine (h : w.Flowing) {item : Bytes} {rest : List (Option Bytes)} (htask : w.writerTask = .looping)
    (hqueue : w.queue = some item :: rest) : Flows false (pend { w with queue := rest } item) := by
  have htaken : w.taken = false := by rw [taken, htask]
  constructor
  · exact h.lines
  · exact h.putters
  · exact h.fresh
  · exact fun habsent => absurd habsent (by simp [pend, htask])
  · have horder := h.order
    rw [hqueue] at horder
    show w.accepted = w.batches.flatMap Prod.snd ++ (w.inThread ++ ((w.pendingLines ++ [item]) ++ rest.filterMap id))
    rw [horder]
    simp
  · intro hphase
    have hnone := (h.before hphase).1
    rw [hqueue] at hnone
    exact ⟨fun hmem => hnone (List.mem_cons_of_mem _ hmem), rfl⟩
  · intro hjoin
    obtain ⟨hstarted, hbehind⟩ := h.behind hjoin
    rw [htaken] at hbehind
    obtain ⟨ls, hnone, hls⟩ := hbehind
    refine ⟨hstarted, ?_⟩
    cases ls with
    | nil => cases (List.cons.inj (hqueue.symm.trans hls)).1
    | cons l ls =>
      exact ⟨ls, fun hmem => hnone (List.mem_cons_of_mem _ hmem), (List.cons.inj (hqueue.symm.trans hls)).2⟩
  · exact h.returned
  · exact fun hended => absurd hended (by simp [pend, htask])
  · exact fun hne => absurd htask hne

theorem Flowing.get (h : w.Flowing) : (w.get cfg).Flowing := by
  rw [LZ4JSONLWriter.get]
  split
  · next rest htask hqueue => exact (h.takeSentinel htask hqueue).flushPending htask
  · next item rest htask hqueue =>
    have htaken := h.takeLine htask hqueue
    dsimp only
    split
    · exact htaken.flushPending htask
    · have hflag : (pend { w with queue := rest } item).taken = false := by
        rw [taken, show (pend { w with queue := rest } item).writerTask = .looping from htask]
      rw [Flowing, hflag]
      exact htaken
  · exact h

theorem Flowing.compressed (h : w.Flowing) : (w.compressed cfg).Flowing := by
  rw [LZ4JSONLWriter.compressed]
  split
  · next lines last htask =>
    have hlast : w.taken = last := by rw [taken, htask]
    have hthread : w.inThread = lines := by rw [inThread, htask]
    have hwritten : Flows last { w.writeLz4Batch cfg lines with writerTask := .looping } := by
      rw [Flowing, hlast] at h
      constructor
      · exact h.lines
      · exact h.putters
      · exact h.fresh
      · exact nofun
      · show w.accepted = (w.batches ++ [(true, lines)]).flatMap Prod.snd ++
          ([] ++ (w.pendingLines ++ w.queue.filterMap id))
        rw [h.order, hthread]
        simp
      · exact h.before
      · exact fun hjoin => ⟨nofun, (h.behind hjoin).2⟩
      · intro hret
        have hdone := h.returned hret
        simp [htask] at hdone
      · exact nofun
      · exact fun hne => absurd rfl hne
    exact hwritten.afterFlush rfl (h.idle (by simp [htask]))
  · exact h

theorem Flowing.step (laws : JsonlLaws cfg decompress) (h : w.Flowing) {event : WriterEvent Obj}
    (hcareful : w.Careful cfg event) : (w.step cfg event).Flowing := by
  cases event with
  | writeLine call obj => exact h.writeLine laws call obj
  | proceed call => exact h.proceed hcareful
  | giveUp call => exact h.giveUp call
  | close => exact h.close
  | proceedClose => exact h.proceedClose
  | closeReturns => exact h.closeReturns
  | get => exact h.get
  | compressed => exact h.compressed

theorem Flows.isLine_of_mem_pendingLines {taken : Bool} (h : w.Flows taken) {l : Bytes} (hl : l ∈ w.pendingLines) :
    IsLine l := by
  apply h.lines
  rw [h.order]
  simp [hl]

/-! ### The files -/

/-- The lines of the batches that went to the raw file. -/
def rawLines (w : LZ4JSONLWriter) : List Bytes := (w.batches.filter fun b => !b.1).flatMap Prod.snd

/-- The files hold the batches. All batches go to one of them, the right one, and there is one frame at most. -/
structure Filed (cfg : JsonlSettings Obj) (w : LZ4JSONLWriter) : Prop where
  raw : w.fileJsonl = terminated lineEnd w.rawLines
  zst : w.fileZst = (w.batches.filter Prod.fst).map fun b => cfg.lz4Compress ([lineEnd].intercalate b.2)
  kind : ∀ b ∈ w.batches, b.1 = (cfg.compress && decide (cfg.minCompress ≤ 0))
  right : ∀ b ∈ w.batches, b.1 = true ↔ cfg.compress = true ∧ cfg.minCompress ≤ (totalLength b.2 : ℤ)
  first : w.fileZst.length ≤ 1
  thread : ∀ lines last, w.writerTask = .compressing lines last →
    w.fileZst = [] ∧ cfg.compress = true ∧ cfg.minCompress ≤ 0

theorem filed_new : Filed cfg {} where
  raw := rfl
  zst := rfl
  kind _ h := absurd h List.not_mem_nil
  right _ h := absurd h List.not_mem_nil
  first := Nat.zero_le _
  thread _ _ h := nomatch h

theorem Filed.of_eq {v : LZ4JSONLWriter} (h : w.Filed cfg) (hjsonl : v.fileJsonl = w.fileJsonl)
    (hzst : v.fileZst = w.fileZst) (hbatches : v.batches = w.batches)
    (hthread : ∀ lines last, v.writerTask = .compressing lines last → w.writerTask = .compressing lines last) :
    v.Filed cfg := by
  constructor
  · rw [hjsonl, rawLines, hbatches]
    exact h.raw
  · rw [hzst, hbatches]
    exact h.zst
  · rw [hbatches]
    exact h.kind
  · rw [hbatches]
    exact h.right
  · rw [hzst]
    exact h.first
  · intro lines last htask
    rw [hzst]
    exact h.thread lines last (hthread lines last htask)

theorem Filed.afterFlush (h : w.Filed cfg) (last : Bool) : (w.afterFlush last).Filed cfg := by
  apply h.of_eq (v := w.afterFlush last) rfl rfl rfl
  intro lines last' htask
  cases last <;> cases htask

theorem writeRawBatch_text {lines : List Bytes} (hlines : ∀ l ∈ lines, IsLine l) :
    (lines.flatMap fun line => encode (decodeReplace line) ++ [lineEnd]) = terminated lineEnd lines := by
  apply List.flatMap_congr
  intro l hl
  obtain ⟨text, rfl⟩ := (hlines l hl).utf8
  rw [decodeReplace_encode]

theorem terminated_append (ls ms : List Bytes) :
    terminated lineEnd (ls ++ ms) = terminated lineEnd ls ++ terminated lineEnd ms := List.flatMap_append

theorem Filed.writeRawBatch (h : w.Filed cfg) {lines : List Bytes} (hlines : ∀ l ∈ lines, IsLine l)
    (hkind : (cfg.compress && decide (cfg.minCompress ≤ 0)) = false)
    (hright : ¬ (cfg.compress = true ∧ cfg.minCompress ≤ (totalLength lines : ℤ))) :
    (w.writeRawBatch lines).Filed cfg where
  raw := by
    have hraw : (w.writeRawBatch lines).rawLines = w.rawLines ++ lines := by
      rw [rawLines, LZ4JSONLWriter.writeRawBatch]
      simp [rawLines]
    rw [hraw, terminated_append, ← h.raw, ← writeRawBatch_text hlines]
    rfl
  zst := by
    show w.fileZst = ((w.batches ++ [(false, lines)]).filter Prod.fst).map _
    rw [List.filter_append, h.zst]
    simp
  kind b hb := by
    cases List.mem_append.1 hb with
    | inl hb => exact h.kind b hb
    | inr hb => rw [List.mem_singleton.1 hb, hkind]
  right b hb := by
    cases List.mem_append.1 hb with
    | inl hb => exact h.right b hb
    | inr hb =>
      rw [List.mem_singleton.1 hb]
      exact ⟨nofun, fun hon => absurd hon hright⟩
  first := h.first
  thread := h.thread

theorem Filed.flushPending {last : Bool} (h : w.Filed cfg) (hlines : ∀ l ∈ w.pendingLines, IsLine l)
    (hfine : w.pendingLines ≠ [] → FlushFine cfg w w.pendingLines) : (w.flushPending cfg last).Filed cfg := by
  rw [LZ4JSONLWriter.flushPending]
  split
  · exact h.afterFlush last
  next hne =>
  have hfine := hfine hne
  rw [FlushFine] at hfine
  dsimp only
  split
  · next hcompress =>
    rw [Bool.and_eq_true, shouldCompress, decide_eq_true_iff] at hcompress
    obtain ⟨hon, hmin⟩ := hcompress
    have hmin' : cfg.minCompress ≤ 0 := hmin
    have hempty := hfine hon
    rw [if_pos hmin'] at hempty
    exact ⟨h.raw, h.zst, h.kind, h.right, h.first, fun _ _ _ => ⟨hempty, hon, hmin'⟩⟩
  · next hraw =>
    have hkind : (cfg.compress && decide (cfg.minCompress ≤ 0)) = false := by simpa [shouldCompress] using hraw
    have hright : ¬ (cfg.compress = true ∧ cfg.minCompress ≤ (totalLength w.pendingLines : ℤ)) := by
      intro hon
      have hlt := hfine hon.1
      rw [hon.1, Bool.true_and, decide_eq_false_iff_not] at hkind
      rw [if_neg hkind] at hlt
      omega
    have hreset : Filed cfg { w with pendingLines := [], pendingBytes := 0 } :=
      ⟨h.raw, h.zst, h.kind, h.right, h.first, h.thread⟩
    exact (hreset.writeRawBatch hlines hkind hright).afterFlush last

theorem Filed.get (h : w.Filed cfg) (hflow : w.Flowing) (hcareful : w.Careful cfg .get) : (w.get cfg).Filed cfg := by
  rw [LZ4JSONLWriter.get]
  split
  · next rest htask hqueue =>
    have hrest : Filed cfg { w with queue := rest } := ⟨h.raw, h.zst, h.kind, h.right, h.first, h.thread⟩
    apply hrest.flushPending fun l hl => hflow.isLine_of_mem_pendingLines hl
    intro hne
    apply hcareful
    rw [flushed?, htask, hqueue]
    exact if_neg hne
  · next item rest htask hqueue =>
    have htaken := hflow.takeLine htask hqueue
    have hpend : Filed cfg (pend { w with queue := rest } item) :=
      ⟨h.raw, h.zst, h.kind, h.right, h.first, h.thread⟩
    dsimp only
    split
    · next hdue =>
      apply hpend.flushPending fun l hl => htaken.isLine_of_mem_pendingLines hl
      intro _
      apply hcareful
      rw [flushed?, htask, hqueue]
      exact if_pos hdue
    · exact hpend
  · exact h

theorem Filed.compressed (h : w.Filed cfg) : (w.compressed cfg).Filed cfg := by
  rw [LZ4JSONLWriter.compressed]
  split
  · next lines last htask =>
    obtain ⟨hempty, hon, hmin⟩ := h.thread lines last htask
    have hwritten : Filed cfg { w.writeLz4Batch cfg lines with writerTask := .looping } := by
      constructor
      · show w.fileJsonl = terminated lineEnd (((w.batches ++ [(true, lines)]).filter fun b => !b.1).flatMap Prod.snd)
        rw [h.raw, rawLines, List.filter_append]
        simp
      · show w.fileZst ++ [_] = ((w.batches ++ [(true, lines)]).filter Prod.fst).map _
        rw [List.filter_append, h.zst]
        simp
      · intro b hb
        cases List.mem_append.1 hb with
        | inl hb => exact h.kind b hb
        | inr hb => rw [List.mem_singleton.1 hb, hon, decide_eq_true hmin]; rfl
      · intro b hb
        cases List.mem_append.1 hb with
        | inl hb => exact h.right b hb
        | inr hb =>
          rw [List.mem_singleton.1 hb]
          exact ⟨fun _ => ⟨hon, hmin.trans (Int.natCast_nonneg _)⟩, fun _ => rfl⟩
      · show (w.fileZst ++ [_]).length ≤ 1
        rw [hempty]
        exact Nat.le_refl 1
      · exact nofun
    exact hwritten.afterFlush last
  · exact h

theorem Filed.writeLine (h : w.Filed cfg) (call : Nat) (obj : Obj) : (w.writeLine cfg call obj).Filed cfg := by
  have hstarted : w.ensureWriterStarted.Filed cfg := by
    rw [LZ4JSONLWriter.ensureWriterStarted]
    split
    · exact h.of_eq rfl rfl rfl nofun
    · exact h
  rw [LZ4JSONLWriter.writeLine]
  split
  · exact h
  split
  · exact h
  dsimp only
  split
  · exact hstarted.of_eq rfl rfl rfl fun _ _ htask => htask
  · exact hstarted.of_eq rfl rfl rfl fun _ _ htask => htask

theorem Filed.proceed (h : w.Filed cfg) (call : Nat) : (w.proceed cfg call).Filed cfg := by
  rw [LZ4JSONLWriter.proceed]
  split
  · exact h
  split
  · exact h
  · exact h.of_eq rfl rfl rfl fun _ _ htask => htask

theorem Filed.close (h : w.Filed cfg) : (w.close cfg).Filed cfg := by
  rw [LZ4JSONLWriter.close]
  split
  · exact h
  dsimp only
  split
  · exact h.of_eq rfl rfl rfl fun _ _ htask => htask
  split
  · exact h.of_eq rfl rfl rfl fun _ _ htask => htask
  · exact h.of_eq rfl rfl rfl fun _ _ htask => htask

theorem Filed.proceedClose (h : w.Filed cfg) : (w.proceedClose cfg).Filed cfg := by
  rw [LZ4JSONLWriter.proceedClose]
  split
  · exact h.of_eq rfl rfl rfl fun _ _ htask => htask
  · exact h

theorem Filed.closeReturns (h : w.Filed cfg) : w.closeReturns.Filed cfg := by
  rw [LZ4JSONLWriter.closeReturns]
  split
  · exact h.of_eq rfl rfl rfl fun _ _ htask => htask
  · exact h

theorem Filed.step (h : w.Filed cfg) (hflow : w.Flowing) {event : WriterEvent Obj} (hcareful : w.Careful cfg event) :
    (w.step cfg event).Filed cfg := by
  cases event with
  | writeLine call obj => exact h.writeLine call obj
  | proceed call => exact h.proceed call
  | giveUp call => exact ⟨h.raw, h.zst, h.kind, h.right, h.first, h.thread⟩
  | close => exact h.close
  | proceedClose => exact h.proceedClose
  | closeReturns => exact h.closeReturns
  | get => exact h.get hflow hcareful
  | compressed => exact h.compressed

/-! ### After `close` -/

/-- The lines in the raw file and in the decompressed frames: every accepted line once, and in each file in the order of
the queue. -/
structure Delivered (decompress : Bytes → Bytes) (w : LZ4JSONLWriter) : Prop where
  once : (linesOf lineEnd w.fileJsonl ++ linesOf lineEnd (w.fileZst.flatMap decompress)).Perm w.accepted
  raw : (linesOf lineEnd w.fileJsonl).Sublist w.accepted
  zst : (linesOf lineEnd (w.fileZst.flatMap decompress)).Sublist w.accepted

/-- What is to hold of a writer: after `close` the accepted lines are there, and each batch went to the compressed file
exactly where compression is enabled and it is long enough. -/
structure Reliable (cfg : JsonlSettings Obj) (decompress : Bytes → Bytes) (w : LZ4JSONLWriter) : Prop where
  delivered : w.closePhase = .returned → w.Delivered decompress
  placed : ∀ b ∈ w.batches, b.1 = true ↔ cfg.compress = true ∧ cfg.minCompress ≤ (totalLength b.2 : ℤ)

theorem Flowing.accepted_eq (h : w.Flowing) (hret : w.closePhase = .returned) :
    w.accepted = w.batches.flatMap Prod.snd := by
  cases h.returned hret with
  | inl habsent =>
    have hnil := (h.absent habsent).1
    have horder := h.order
    rw [hnil] at horder ⊢
    exact (List.append_eq_nil_iff.1 horder.symm).1.symm
  | inr hended =>
    have hthread : w.inThread = [] := by rw [inThread, hended]
    rw [h.order, hthread, h.idle (by simp [hended]), h.ended hended]
    simp

theorem Filed.delivered (laws : JsonlLaws cfg decompress) (h : w.Filed cfg) (hflow : w.Flowing)
    (hret : w.closePhase = .returned) : w.Delivered decompress := by
  have haccepted := hflow.accepted_eq hret
  have honeLine : ∀ l ∈ w.accepted, lineEnd ∉ l := fun l hl => (hflow.lines l hl).oneLine
  have hnonempty : ∀ l ∈ w.accepted, l ≠ [] := fun l hl => (hflow.lines l hl).nonempty
  cases hkind : cfg.compress && decide (cfg.minCompress ≤ 0) with
  | false =>
    have hall : ∀ b ∈ w.batches, b.1 = false := fun b hb => (h.kind b hb).trans hkind
    have hraw : w.rawLines = w.accepted := by
      rw [rawLines, haccepted, List.filter_eq_self.2 fun b hb => by rw [hall b hb]; rfl]
    have hzst : w.fileZst = [] := by
      rw [h.zst, List.filter_eq_nil_iff.2 fun b hb => by rw [hall b hb]; exact Bool.false_ne_true]
      rfl
    have hlines : linesOf lineEnd w.fileJsonl = w.accepted := by rw [h.raw, hraw, linesOf_terminated honeLine]
    refine ⟨?_, ?_, ?_⟩
    · rw [hlines, hzst, List.flatMap_nil, linesOf_nil, List.append_nil]
    · rw [hlines]
    · rw [hzst, List.flatMap_nil, linesOf_nil]
      exact List.nil_sublist _
  | true =>
    have hall : ∀ b ∈ w.batches, b.1 = true := fun b hb => (h.kind b hb).trans hkind
    have hraw : w.fileJsonl = [] := by
      rw [h.raw, rawLines, List.filter_eq_nil_iff.2 fun b hb => by rw [hall b hb]; exact Bool.false_ne_true]
      rfl
    have hzst := h.zst
    rw [List.filter_eq_self.2 hall] at hzst
    have hframes : linesOf lineEnd (w.fileZst.flatMap decompress) = w.accepted := by
      have hfirst := h.first
      rw [hzst, List.length_map] at hfirst
      rw [hzst]
      cases hbatches : w.batches with
      | nil => rw [haccepted, hbatches]; exact linesOf_nil lineEnd
      | cons b rest =>
        have hrest : rest = [] := by
          rw [hbatches, List.length_cons] at hfirst
          exact List.length_eq_zero_iff.1 (by omega)
        have hlines : w.accepted = b.2 := by
          rw [haccepted, hbatches, hrest, List.flatMap_cons, List.flatMap_nil, List.append_nil]
        rw [hrest, List.map_cons, List.map_nil, List.flatMap_cons, List.flatMap_nil, List.append_nil, laws.lz4,
          ← hlines]
        exact linesOf_intercalate honeLine hnonempty
    refine ⟨?_, ?_, ?_⟩
    · rw [hframes, hraw, linesOf_nil, List.nil_append]
    · rw [hraw, linesOf_nil]
      exact List.nil_sublist _
    · rw [hframes]

/-- A writer of empty objects. -/
def emptyObjects : JsonlSettings Unit where
  jsonEncode _ := .ok [0x7B, 0x7D]
  orjsonDumps _ := .ok [0x7B, 0x7D]
  lz4Compress := id

theorem laws_emptyObjects : JsonlLaws emptyObjects id := by
  have hline : ∀ line, (.ok [0x7B, 0x7D] : Except PyError Bytes) = .ok line → IsLine line := by
    intro line h
    rw [← Except.ok.inj h]
    exact ⟨nofun, by decide, "\x7b\x7d", by decide⟩
  exact ⟨fun _ => hline, fun _ => hline, fun _ => rfl⟩

end LZ4JSONLWriter

end Hledac.Utils
