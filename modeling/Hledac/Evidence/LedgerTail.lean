import Hledac.Evidence.Event
import Hledac.Py.Parse

/-!
# The ledger read from its end

How `evidence/_log.py` counts the lines of a JSONL ledger and reads its last events without reading all of it: both
seek to the end and go back in blocks of 8192 bytes. The tail reader collects a line's bytes as it meets them, last
byte first, and hands them to the parser in this order.
-/

namespace Hledac.Evidence

open Hledac.Lib Hledac.Py

/-- `ord("\n")`. -/
def newline : UInt8 := 10

/-- `buf_size`. -/
def bufSize : Nat := 8192

/-- What `os.read` gives at a position for a number of bytes. -/
def readAt (file : Bytes) (pos size : Nat) : Bytes := (file.drop pos).take size

/-! ### Counting lines -/

/-- The loop of `_count_jsonl_lines_backward`; `_log.py:4030-4043`. -/
def countLoop (file : Bytes) (pos count : Nat) : Nat :=
  if pos = 0 then count
  else
    let readSize := min bufSize pos
    let chunk := readAt file (pos - readSize) readSize
    let counted := count + chunk.count newline
    if 0 < pos - readSize ∧ chunk ≠ [] ∧ chunk.getLast? ≠ some newline then
      countLoop file (pos - readSize) (counted - 1)
    else countLoop file (pos - readSize) counted
termination_by pos
decreasing_by all_goals (have hsize : 0 < bufSize := by decide); omega

/-- `_count_jsonl_lines_backward`, on a file that can be read; `_log.py:4013-4043`. -/
def countJsonlLinesBackward (file : Bytes) : Nat := countLoop file file.length 0

theorem take_eq_append_readAt (file : Bytes) {pos size : Nat} (h : size ≤ pos) :
    file.take pos = file.take (pos - size) ++ readAt file (pos - size) size := by
  rw [readAt, ← List.take_add, Nat.sub_add_cancel h]

theorem getLast?_readAt {file : Bytes} {pos size : Nat} (h : size ≤ pos) (hpos : pos ≤ file.length)
    (hsize : 0 < size) : (readAt file (pos - size) size).getLast? = file[pos - 1]? := by
  have hlength : (readAt file (pos - size) size).length = size := by
    rw [readAt, List.length_take, List.length_drop]
    omega
  rw [List.getLast?_eq_getElem?, hlength, readAt, List.getElem?_take_of_lt (by omega), List.getElem?_drop]
  congr 1
  omega

theorem countLoop_le (file : Bytes) (pos count : Nat) :
    countLoop file pos count ≤ count + (file.take pos).count newline := by
  induction pos, count using countLoop.induct file with
  | case1 count => simp [countLoop]
  | case2 pos count hpos readSize chunk counted hcut ih =>
    have htake := take_eq_append_readAt file (Nat.min_le_right bufSize pos)
    rw [countLoop, if_neg hpos, if_pos hcut, htake, List.count_append]
    apply Nat.le_trans ih
    show count + (readAt file (pos - min bufSize pos) (min bufSize pos)).count newline - 1 +
      (file.take (pos - min bufSize pos)).count newline ≤ _
    omega
  | case3 pos count hpos readSize chunk counted hcut ih =>
    have htake := take_eq_append_readAt file (Nat.min_le_right bufSize pos)
    rw [countLoop, if_neg hpos, if_neg hcut, htake, List.count_append]
    apply Nat.le_trans ih
    show count + (readAt file (pos - min bufSize pos) (min bufSize pos)).count newline +
      (file.take (pos - min bufSize pos)).count newline ≤ _
    omega

/-- Once a line end is counted, or where the next block ends a line, every later block has to end one. -/
theorem countLoop_eq_iff (file : Bytes) (pos count : Nat) (hpos : 0 < pos) (hlength : pos ≤ file.length)
    (hcount : 0 < count ∨ file[pos - 1]? = some newline) :
    countLoop file pos count = count + (file.take pos).count newline ↔
      ∀ k, bufSize * (k + 1) < pos → file[pos - bufSize * k - 1]? = some newline := by
  induction pos using Nat.strong_induction_on generalizing count with
  | _ pos ih =>
    have hbuf : bufSize = 8192 := rfl
    have hsize : 0 < min bufSize pos := by omega
    have htake := take_eq_append_readAt file (Nat.min_le_right bufSize pos)
    have hlast := getLast?_readAt (Nat.min_le_right bufSize pos) hlength hsize
    rw [countLoop, if_neg (by omega), htake, List.count_append]
    by_cases hfirst : pos ≤ bufSize
    · have hzero : pos - min bufSize pos = 0 := by omega
      rw [if_neg (by omega), hzero, countLoop, if_pos rfl]
      constructor
      · intro _ k hk
        have hle : bufSize * 1 ≤ bufSize * (k + 1) := Nat.mul_le_mul_left bufSize (by omega)
        omega
      · intro _
        simp
    · have hmin : min bufSize pos = bufSize := by omega
      rw [hmin] at htake hlast ⊢
      have hne : readAt file (pos - bufSize) bufSize ≠ [] := by
        intro hnil
        rw [hnil, List.getLast?_nil] at hlast
        have hnone := List.getElem?_eq_none_iff.1 hlast.symm
        omega
      by_cases hend : file[pos - 1]? = some newline
      · have hmem : newline ∈ readAt file (pos - bufSize) bufSize := List.mem_of_getLast? (hlast.trans hend)
        have hpositive := List.count_pos_iff.2 hmem
        have hrest := ih (pos - bufSize) (by omega) (count + (readAt file (pos - bufSize) bufSize).count newline)
          (by omega) (by omega) (.inl (by omega))
        rw [if_neg (by simp [hlast, hend]), Nat.add_comm ((file.take _).count newline), ← Nat.add_assoc, hrest]
        have hindex : ∀ k, pos - bufSize - bufSize * k - 1 = pos - bufSize * (k + 1) - 1 := by
          intro k
          rw [Nat.mul_succ]
          omega
        constructor
        · intro h k hk
          cases k with
          | zero => exact hend
          | succ k =>
            rw [← hindex]
            exact h k (by rw [Nat.mul_succ] at hk; omega)
        · intro h k hk
          rw [hindex]
          exact h (k + 1) (by rw [Nat.mul_succ]; omega)
      · have hpositive : 0 < count := hcount.resolve_right hend
        rw [if_pos ⟨by omega, hne, by rwa [hlast]⟩]
        have hle := countLoop_le file (pos - bufSize) (count + (readAt file (pos - bufSize) bufSize).count newline - 1)
        constructor
        · intro h
          omega
        · intro h
          exact absurd (h 0 (by omega)) hend

/-- Of a file whose last line is ended, the count is the number of line ends exactly when every block but the file's
first ends with one. -/
theorem lines_counted_iff {file : Bytes} (h : file.getLast? = some newline) :
    countJsonlLinesBackward file = file.count newline ↔
      ∀ k, bufSize * (k + 1) < file.length → file[file.length - bufSize * k - 1]? = some newline := by
  have hlast : file[file.length - 1]? = some newline := by rw [← List.getLast?_eq_getElem?, h]
  have hpos : 0 < file.length := by
    cases file with
    | nil => cases h
    | cons x xs => exact Nat.succ_pos _
  rw [countJsonlLinesBackward, ← countLoop_eq_iff file file.length 0 hpos (Nat.le_refl _) (.inr hlast), Nat.zero_add,
    List.take_length]

/-- A file of two lines that fits in one block. -/
theorem lines_counted_short :
    countJsonlLinesBackward [97, newline, 98, newline] = List.count newline [97, newline, 98, newline] :=
  (lines_counted_iff rfl).2 fun k hk => by
    have hle : bufSize * 1 ≤ bufSize * (k + 1) := Nat.mul_le_mul_left bufSize (by omega)
    have hbuf : bufSize = 8192 := rfl
    simp only [List.length_cons, List.length_nil] at hk
    omega

/-- One line over three blocks: where the middle block ends, the line goes on. -/
theorem not_lines_counted :
    let file := List.replicate (2 * bufSize) 97 ++ [newline]
    file.getLast? = some newline ∧ countJsonlLinesBackward file ≠ file.count newline := by
  intro file
  have hlength : file.length = 2 * bufSize + 1 := by simp [file]
  refine ⟨by simp [file], ?_⟩
  intro heq
  have hblocks := (countLoop_eq_iff file file.length 0 (by omega) (Nat.le_refl _) (.inr (by simp [file]))).1
    (by rw [List.take_length, Nat.zero_add]; exact heq) 1 (by rw [hlength]; omega)
  have hbuf : bufSize = 8192 := rfl
  rw [hlength, List.getElem?_append_left (by simp; omega), List.getElem?_replicate_of_lt (by omega)] at hblocks
  exact absurd hblocks (by decide)

/-! ### Reading the last events -/

section Tail

variable {E : Type} (c : Codecs) (fromDict : PyVal → Except PyError E)

/-- `_parse_jsonl_line`; `_log.py:4053-4061`. Of `EvidenceEvent.from_dict` it matters here only that it may raise. -/
def parseJsonlLine (currentLine : Bytes) : Option E :=
  match decode? currentLine with
  | none => none
  | some text =>
    if strip text = "" then none
    else
      match c.loads (encode (strip text)) with
      | .error _ => none
      | .ok data => (fromDict data).toOption

/-- The events found and the bytes of the line that is being collected. -/
structure Tail (E : Type) where
  events : List E
  currentLine : Bytes

/-- The end of a line: what was collected is parsed. -/
def Tail.endLine (s : Tail E) : Tail E :=
  ⟨s.events ++ (parseJsonlLine c fromDict s.currentLine).toList, []⟩

/-- The loop over the bytes of a block, last one first; `_log.py:4070-4079`. -/
def scanBytes (maxEvents : Nat) : List UInt8 → Tail E → Tail E
  | [], s => s
  | byte :: rest, s =>
    if byte = newline then
      if s.currentLine = [] then scanBytes maxEvents rest s
      else
        let s := s.endLine c fromDict
        if maxEvents < s.events.length then s else scanBytes maxEvents rest s
    else scanBytes maxEvents rest { s with currentLine := s.currentLine ++ [byte] }

/-- The loop of `_read_jsonl_tail_backward`; `_log.py:4067-4082`. -/
def readLoop (file : Bytes) (maxEvents pos : Nat) (s : Tail E) : Tail E :=
  if pos = 0 ∨ maxEvents < s.events.length then s
  else
    let readSize := min bufSize pos
    let t := scanBytes c fromDict maxEvents (readAt file (pos - readSize) readSize).reverse s
    let t := if pos - readSize = 0 ∧ t.currentLine ≠ [] then
        { t with events := t.events ++ (parseJsonlLine c fromDict t.currentLine).toList }
      else t
    readLoop file maxEvents (pos - readSize) t
termination_by pos
decreasing_by (have hsize : 0 < bufSize := by decide); omega

/-- `_read_jsonl_tail_backward`. -/
def readJsonlTailBackward (file : Bytes) (maxEvents : Nat) : List E :=
  (readLoop c fromDict file maxEvents file.length ⟨[], []⟩).events

/-- `events[-max_events:]`, for a positive number. -/
def lastEvents (maxEvents : Nat) (events : List E) : List E := events.drop (events.length - maxEvents)

/-- `_iter_jsonl_tail`, on a file that can be read; `_log.py:4100-4113`. -/
def iterJsonlTail (file : Bytes) (maxEvents : Nat) : List E :=
  if file.length = 0 then []
  else (lastEvents maxEvents (readJsonlTailBackward c fromDict file maxEvents)).reverse

/-- One round of `_read_jsonl_tail_fallback`; `_log.py:4088-4097`. -/
def fallbackStep (maxEvents : Nat) (events : List E) (line : Bytes) : List E :=
  match parseJsonlLine c fromDict line with
  | none => events
  | some event =>
    if maxEvents < (events ++ [event]).length then lastEvents maxEvents (events ++ [event]) else events ++ [event]

/-- `_read_jsonl_tail_fallback`, over the lines of the file. -/
def readJsonlTailFallback (lines : List Bytes) (maxEvents : Nat) : List E :=
  lines.foldl (fallbackStep c fromDict maxEvents) []

theorem readJsonlTailFallback_eq (lines : List Bytes) {maxEvents : Nat} (hmax : 1 ≤ maxEvents) :
    readJsonlTailFallback c fromDict lines maxEvents =
      lastEvents maxEvents (lines.filterMap (parseJsonlLine c fromDict)) := by
  induction lines using List.reverseRecOn with
  | nil => simp [readJsonlTailFallback, lastEvents]
  | append_singleton lines line ih =>
    rw [readJsonlTailFallback, List.foldl_append, ← readJsonlTailFallback, ih, List.filterMap_append]
    cases hline : parseJsonlLine c fromDict line with
    | none => simp [fallbackStep, hline]
    | some event =>
      simp only [List.foldl_cons, List.foldl_nil, fallbackStep, hline, lastEvents, List.filterMap_cons,
        List.filterMap_nil, List.length_append, List.length_drop, List.length_singleton]
      split
      · rw [List.drop_append_of_le_length (by rw [List.length_drop]; omega), List.drop_drop,
          List.drop_append_of_le_length (by omega)]
        congr 2
        omega
      · rw [List.drop_append_of_le_length (by omega)]
        congr 2
        omega

/-! ### Where the blocks fall -/

variable {c fromDict} {maxEvents : Nat}

theorem currentLine_scanBytes {xs : List UInt8} {s : Tail E} (hs : s.events.length ≤ maxEvents)
    (h : maxEvents < (scanBytes c fromDict maxEvents xs s).events.length) :
    (scanBytes c fromDict maxEvents xs s).currentLine = [] := by
  induction xs generalizing s with
  | nil => exact absurd h (Nat.not_lt.2 hs)
  | cons byte rest ih =>
    rw [scanBytes] at h ⊢
    split
    · next hbyte =>
      rw [if_pos hbyte] at h
      split
      · next hline =>
        rw [if_pos hline] at h
        exact ih hs h
      · next hline =>
        rw [if_neg hline] at h
        dsimp only at h ⊢
        split
        · rfl
        · next hle =>
          rw [if_neg hle] at h
          exact ih (Nat.not_lt.1 hle) h
    · next hbyte =>
      rw [if_neg hbyte] at h
      exact ih hs h

theorem scanBytes_append (xs ys : List UInt8) {s : Tail E} (hs : s.events.length ≤ maxEvents) :
    scanBytes c fromDict maxEvents (xs ++ ys) s =
      if maxEvents < (scanBytes c fromDict maxEvents xs s).events.length then scanBytes c fromDict maxEvents xs s
      else scanBytes c fromDict maxEvents ys (scanBytes c fromDict maxEvents xs s) := by
  induction xs generalizing s with
  | nil =>
    show _ = if maxEvents < s.events.length then s else _
    rw [if_neg (Nat.not_lt.2 hs)]
    rfl
  | cons byte rest ih =>
    rw [List.cons_append, scanBytes, scanBytes]
    by_cases hbyte : byte = newline
    · rw [if_pos hbyte, if_pos hbyte]
      by_cases hline : s.currentLine = []
      · rw [if_pos hline, if_pos hline]
        exact ih hs
      · rw [if_neg hline, if_neg hline]
        dsimp only
        by_cases hfull : maxEvents < (s.endLine c fromDict).events.length
        · rw [if_pos hfull, if_pos hfull, if_pos hfull]
        · rw [if_neg hfull, if_neg hfull]
          exact ih (Nat.not_lt.1 hfull)
    · rw [if_neg hbyte, if_neg hbyte]
      exact ih hs

/-- The first line of the file has no line end before it. -/
def Tail.endFile (c : Codecs) (fromDict : PyVal → Except PyError E) (s : Tail E) : Tail E :=
  if s.currentLine ≠ [] then { s with events := s.events ++ (parseJsonlLine c fromDict s.currentLine).toList } else s

theorem readLoop_eq (file : Bytes) {pos : Nat} (hpos : 0 < pos) {s : Tail E} (hs : s.events.length ≤ maxEvents) :
    readLoop c fromDict file maxEvents pos s =
      (scanBytes c fromDict maxEvents (file.take pos).reverse s).endFile c fromDict := by
  induction pos using Nat.strong_induction_on generalizing s with
  | _ pos ih =>
    have hbuf : bufSize = 8192 := rfl
    rw [readLoop, if_neg (by omega), take_eq_append_readAt file (Nat.min_le_right bufSize pos), List.reverse_append,
      scanBytes_append _ _ hs]
    dsimp only
    generalize ht : scanBytes c fromDict maxEvents
      (readAt file (pos - min bufSize pos) (min bufSize pos)).reverse s = t
    by_cases hfirst : pos - min bufSize pos = 0
    · rw [hfirst, List.take_zero, List.reverse_nil, scanBytes, ite_self, readLoop, if_pos (.inl rfl), Tail.endFile]
      by_cases hline : t.currentLine = []
      · rw [if_neg (by simp [hline]), if_neg (by simp [hline])]
      · rw [if_pos ⟨rfl, hline⟩, if_pos hline]
    · rw [if_neg fun h => hfirst h.1]
      by_cases hfull : maxEvents < t.events.length
      · have hline : t.currentLine = [] := by
          rw [← ht] at hfull ⊢
          exact currentLine_scanBytes hs hfull
        rw [if_pos hfull, readLoop, if_pos (.inr hfull), Tail.endFile, if_neg (by simp [hline])]
      · rw [if_neg hfull]
        exact ih _ (by omega) (by omega) (Nat.not_lt.1 hfull)

/-! ### Lines read backwards -/

/-- The lines of a file, each with its end. -/
def linesText (lines : List Bytes) : Bytes := lines.flatMap fun line => line ++ [newline]

theorem scanBytes_of_notMem (xs : List UInt8) {ys : List UInt8} {s : Tail E} (h : newline ∉ xs) :
    scanBytes c fromDict maxEvents (xs ++ ys) s =
      scanBytes c fromDict maxEvents ys { s with currentLine := s.currentLine ++ xs } := by
  induction xs generalizing s with
  | nil => rw [List.nil_append, List.append_nil]
  | cons x xs ih =>
    obtain ⟨hx, hxs⟩ := not_or.1 (mt List.mem_cons.2 h)
    rw [List.cons_append, scanBytes, if_neg (Ne.symm hx), ih hxs, List.append_assoc]
    rfl

theorem scanBytes_linesText {lines : List Bytes}
    (hlines : ∀ l ∈ lines, newline ∉ l ∧ parseJsonlLine c fromDict l.reverse = none) {s : Tail E}
    (hevents : s.events = []) (hline : parseJsonlLine c fromDict s.currentLine = none) :
    (scanBytes c fromDict maxEvents (linesText lines).reverse s).events = [] ∧
      parseJsonlLine c fromDict (scanBytes c fromDict maxEvents (linesText lines).reverse s).currentLine = none := by
  induction lines using List.reverseRecOn generalizing s with
  | nil => exact ⟨hevents, hline⟩
  | append_singleton lines l ih =>
    obtain ⟨hl, hread⟩ := hlines l (by simp)
    have hrest := fun l' hl' => hlines l' (List.mem_append_left [l] hl')
    have hend : s.endLine c fromDict = ⟨[], []⟩ := by simp [Tail.endLine, hevents, hline]
    have htext : (linesText (lines ++ [l])).reverse = newline :: (l.reverse ++ (linesText lines).reverse) := by
      simp [linesText]
    rw [htext, scanBytes, if_pos rfl]
    split
    · next hnil =>
      rw [scanBytes_of_notMem l.reverse (by simpa using hl), hnil]
      exact ih hrest hevents hread
    · have hfull : ¬ maxEvents < (⟨[], []⟩ : Tail E).events.length := Nat.not_lt_zero maxEvents
      dsimp only
      rw [hend, if_neg hfull, scanBytes_of_notMem l.reverse (by simpa using hl)]
      exact ih hrest rfl hread

theorem iterJsonlTail_eq_nil {lines : List Bytes}
    (hlines : ∀ l ∈ lines, newline ∉ l ∧ parseJsonlLine c fromDict l.reverse = none) (maxEvents : Nat) :
    iterJsonlTail c fromDict (linesText lines) maxEvents = [] := by
  rw [iterJsonlTail]
  split
  · rfl
  · next hne =>
    have hempty : parseJsonlLine c fromDict ([] : Bytes) = none := rfl
    have hscan : (scanBytes c fromDict maxEvents (linesText lines).reverse ⟨[], []⟩).events = [] ∧ _ :=
      scanBytes_linesText hlines rfl hempty
    rw [readJsonlTailBackward, readLoop_eq _ (Nat.pos_of_ne_zero hne) (Nat.zero_le _), List.take_length, Tail.endFile]
    split <;> simp [hscan.1, hscan.2, lastEvents]

/-- The bytes of an event's line: the text of a JSON object, from which the forward reader gets the event. -/
structure EventLine (c : Codecs) (fromDict : PyVal → Except PyError E) (line : Bytes) : Prop where
  oneLine : newline ∉ line
  closes : line.getLast? = some 0x7D
  reads : ∃ event, parseJsonlLine c fromDict line = some event

theorem exists_encode_strip {text : String} {rest : Bytes} (h : encode text = 0x7D :: rest) :
    ∃ rest', encode (strip text) = 0x7D :: rest' := by
  have hhead : ∃ cs, text.toList = '\x7d' :: cs := by
    rw [encode_eq_flatMap] at h
    cases hcs : text.toList with
    | nil =>
      rw [hcs] at h
      cases h
    | cons ch cs =>
      rw [hcs, List.flatMap_cons] at h
      cases hbytes : String.utf8EncodeChar ch with
      | nil =>
        have hlength := congrArg List.length hbytes
        rw [String.length_utf8EncodeChar] at hlength
        exact absurd hlength (Nat.ne_of_gt (Char.utf8Size_pos ch))
      | cons x xs =>
        rw [hbytes, List.cons_append, List.cons.injEq] at h
        have hmem : (0x7D : UInt8) ∈ String.utf8EncodeChar ch := by simp [hbytes, h.1]
        have hnat := eq_of_mem_utf8EncodeChar hmem (by decide)
        refine ⟨cs, ?_⟩
        rw [← Char.ofNat_toNat ch, hnat]
        rfl
  obtain ⟨cs, hcs⟩ := hhead
  have hspace : isSpace '\x7d' = false := by decide
  have hstrip : stripChars text.toList = List.rdropWhile isSpace ('\x7d' :: cs) := by
    rw [stripChars, hcs, List.dropWhile_cons_of_neg (by simp [hspace])]
  obtain ⟨tail, htail⟩ := List.rdropWhile_prefix isSpace (l := '\x7d' :: cs)
  cases hkept : List.rdropWhile isSpace ('\x7d' :: cs) with
  | nil =>
    have hall := List.rdropWhile_eq_nil_iff.1 hkept '\x7d' List.mem_cons_self
    rw [hspace] at hall
    cases hall
  | cons ch kept =>
    rw [hkept, List.cons_append, List.cons.injEq] at htail
    refine ⟨kept.flatMap String.utf8EncodeChar, ?_⟩
    rw [strip, hstrip, hkept, encode_eq_flatMap, String.toList_ofList, List.flatMap_cons, htail.1]
    rfl

theorem parseJsonlLine_reverse (hloads : ∀ rest, ∃ e, c.loads (0x7D :: rest) = .error e) {line : Bytes}
    (h : line.getLast? = some 0x7D) : parseJsonlLine c fromDict line.reverse = none := by
  obtain ⟨init, rfl⟩ := List.getLast?_eq_some_iff.1 h
  rw [List.reverse_append, List.reverse_singleton, List.singleton_append, parseJsonlLine]
  cases hdecode : decode? (0x7D :: init.reverse) with
  | none => rfl
  | some text =>
    obtain ⟨rest, hrest⟩ := exists_encode_strip (encode_of_decode? hdecode)
    obtain ⟨e, he⟩ := hloads rest
    dsimp only
    rw [hrest, he]
    split <;> rfl

/-- Objects that can be read, for closed examples: an event is what a dictionary holds. -/
def readItems : PyVal → Except PyError (List (String × PyVal))
  | .dict items => .ok items
  | _ => .error ⟨.typeError, "string indices must be integers, not 'str'"⟩

theorem plainCodecs_loads_error (rest : Bytes) : ∃ e, plainCodecs.loads (0x7D :: rest) = .error e := by
  have hbraces : encode "\x7b\x7d" = [0x7B, 0x7D] := by decide +kernel
  have hne : (0x7D :: rest : Bytes) ≠ encode "\x7b\x7d" := by simp [hbraces]
  refine ⟨⟨.valueError, "unexpected character"⟩, ?_⟩
  simp only [plainCodecs, if_neg hne]

end Tail

end Hledac.Evidence
