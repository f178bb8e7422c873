import Mathlib.Data.Bool.AllAny
import Hledac.Lib.Words
import Hledac.Py.Parse

/-!
# Gopher addresses and menus

`_parse_url` cuts ten characters off an address whose scheme has nine, and `_parse_directory` skips lines of fewer than
five fields, where a line of a menu has four: its type stands directly before the display string.
-/

namespace Hledac.Transport.Gopher

open Hledac.Lib Hledac.Py

/-- `DEFAULT_PORT`; `transport/gopher_transport.py:43`. -/
def defaultPort : Int := 70

/-- `GopherItem`, its raw line left out, which is never set; lines 79-95. -/
structure GopherItem where
  itemType : String
  displayString : String
  selector : String
  host : String
  port : Int
  deriving DecidableEq

/-! ### Addresses -/

/-- The end of the pattern `^([^:/]+)(?::(\d+))?(?:/(.*))?$`: the dot takes no line feed, and `$` also stands before one
that ends the text. -/
def matchSelector : List Char → Option (List Char)
  | [] => some []
  | ['\n'] => some []
  | '/' :: cs =>
    let selector := cs.takeWhile (· ≠ '\n')
    if cs = selector ∨ cs = selector ++ ['\n'] then some selector else none
  | _ => none

/-- The host is what stands before the first colon or slash. -/
def hostOf (url : List Char) : List Char := url.takeWhile fun ch => ch ≠ ':' ∧ ch ≠ '/'

/-- The three groups of the pattern, the second one empty where it matches nothing. Fewer characters of a host or of a
port than there are leave an end that does not match. -/
def matchAddress (url : List Char) : Option (List Char × List Char × List Char) :=
  let rest := url.drop (hostOf url).length
  let digits := if rest.head? = some ':' then rest.tail.takeWhile fun ch => (digitValue ch).isSome else []
  let rest := if digits = [] then rest else rest.drop (digits.length + 1)
  if hostOf url = [] then none else (matchSelector rest).map fun selector => (hostOf url, digits, selector)

/-- `_parse_url`; lines 231-242. -/
def parseUrl (url : String) : Except ExcKind (Option (String × Int × String)) :=
  if "gopher://".toList <+: url.toList then
    match matchAddress (url.toList.drop 10) with
    | none => .ok none
    | some groups =>
      if groups.2.1 = [] then .ok (some (String.ofList groups.1, defaultPort, String.ofList groups.2.2))
      else
        match readInt (String.ofList groups.2.1) with
        | none => .error .valueError
        | some port => .ok (some (String.ofList groups.1, port, String.ofList groups.2.2))
  else .ok none

/-- An address: the host has no colon and no slash, the selector is one line. -/
structure Address where
  host : String
  port : Nat
  selector : String
  host_ne : host ≠ ""
  host_plain : ∀ ch ∈ host.toList, ch ≠ ':' ∧ ch ≠ '/'
  selector_plain : ∀ ch ∈ selector.toList, ch ≠ '\r' ∧ ch ≠ '\n'

/-- The `ioc_value` of `item_to_finding`; lines 442-464. -/
def iocValue (a : Address) : Except ExcKind String :=
  match natText a.port with
  | none => .error .valueError
  | some port => .ok ("gopher://" ++ a.host ++ ":" ++ port ++ "/" ++ a.selector)

/-- An address is read back from the URL of its item. -/
def Address.Survives (a : Address) : Prop :=
  ∃ url, iocValue a = .ok url ∧ parseUrl url = .ok (some (a.host, (a.port : Int), a.selector))

theorem hostOf_append {host rest : List Char} (h : ∀ ch ∈ host, ch ≠ ':' ∧ ch ≠ '/') :
    hostOf (host ++ ':' :: rest) = host := by
  rw [hostOf, List.takeWhile_append_of_pos fun ch hch => decide_eq_true (h ch hch),
    List.takeWhile_cons_of_neg (by simp), List.append_nil]

theorem host_of_parseUrl {url host selector : String} {port : Int}
    (h : parseUrl url = .ok (some (host, port, selector))) : host = String.ofList (hostOf (url.toList.drop 10)) := by
  unfold parseUrl at h
  split at h
  · cases hmatch : matchAddress (url.toList.drop 10) with
    | none =>
      rw [hmatch] at h
      cases h
    | some groups =>
      have hgroups : groups.1 = hostOf (url.toList.drop 10) := by
        unfold matchAddress at hmatch
        simp only [] at hmatch
        split at hmatch
        · cases hmatch
        · obtain ⟨_, _, rfl⟩ := Option.map_eq_some_iff.1 hmatch
          rfl
      simp only [hmatch] at h
      rw [← hgroups]
      split at h
      · cases h
        rfl
      · split at h
        · cases h
        · cases h
          rfl
  · cases h

theorem Address.host_lost (a : Address) : ¬ a.Survives := by
  rintro ⟨url, hurl, hparse⟩
  have hread := host_of_parseUrl hparse
  rw [iocValue] at hurl
  cases hport : natText a.port with
  | none =>
    rw [hport] at hurl
    cases hurl
  | some port =>
    rw [hport] at hurl
    cases hhost : a.host.toList with
    | nil => exact a.host_ne (String.toList_eq_nil_iff.1 hhost)
    | cons first host =>
      have hcut : url.toList.drop 10 = host ++ ':' :: (port.toList ++ '/' :: a.selector.toList) := by
        rw [← Except.ok.inj hurl]
        simp [hhost]
      rw [hcut, hostOf_append fun ch hch => a.host_plain ch (hhost ▸ List.mem_cons_of_mem _ hch)] at hread
      have hlength := congrArg List.length hhost
      rw [hread, String.toList_ofList, List.length_cons] at hlength
      omega

/-! ### Menus -/

/-- `bytes.decode("ascii", errors="replace")`. -/
def decodeAscii (bs : Bytes) : String :=
  String.ofList (bs.map fun b => if b.toNat < 128 then Char.ofNat b.toNat else '\uFFFD')

/-- The item of a line, where it has five fields and the fifth is a number; lines 262-278. -/
def parseLine (line : Bytes) : Option GopherItem :=
  let line := line.rdropWhile (· = 13)
  if line = [] ∨ line = [46] then none
  else
    match line.splitOn 9 with
    | itemType :: displayString :: selector :: host :: port :: _ =>
      (readInt (decodeAscii port)).map fun port => {
        itemType := decodeAscii itemType
        displayString := decodeReplace displayString
        selector := decodeReplace selector
        host := decodeAscii host
        port }
    | _ => none

/-- `_parse_directory`; lines 257-279. -/
def parseDirectory (content : Bytes) : List GopherItem := (content.splitOn 10).filterMap parseLine

/-- A line of a menu: its texts are free of tabs and line ends, and its host is ASCII. -/
structure MenuLine where
  itemType : Char
  displayString : String
  selector : String
  host : String
  port : Nat
  plain : ∀ ch ∈ itemType :: displayString.toList ++ selector.toList ++ host.toList, ch ≠ '\t' ∧ ch ≠ '\r' ∧ ch ≠ '\n'
  ascii : ∀ ch ∈ host.toList, ch.toNat < 128

/-- What a line lists. -/
def MenuLine.item (l : MenuLine) : GopherItem where
  itemType := String.singleton l.itemType
  displayString := l.displayString
  selector := l.selector
  host := l.host
  port := l.port

/-- The fields of a line: the type directly before the display string, the selector, the host, and the port. -/
def MenuLine.fields (l : MenuLine) : List Bytes :=
  [encode (String.singleton l.itemType ++ l.displayString), encode l.selector, encode l.host, encode (toString l.port)]

/-- The bytes of a line without its end. -/
def MenuLine.bytes (l : MenuLine) : Bytes := [9].intercalate l.fields

/-- A menu: its lines, each with its end, and the line that ends it. -/
def render (menu : List MenuLine) : Bytes := terminated 10 ((menu.map MenuLine.bytes ++ [[46]]).map (· ++ [13]))

/-- A menu is read back. -/
def MenuSurvives (menu : List MenuLine) : Prop := parseDirectory (render menu) = menu.map MenuLine.item

theorem notMem_encode {s : String} {x : UInt8} (hx : x.toNat < 128) (h : Char.ofNat x.toNat ∉ s.toList) : x ∉ encode s :=
  fun hmem => h (mem_encode hx hmem)

theorem MenuLine.notMem_fields (l : MenuLine) {x : UInt8} (hx : x = 9 ∨ x = 10) : ∀ field ∈ l.fields, x ∉ field := by
  have hsmall : x.toNat < 128 := by
    cases hx with
    | inl hx => rw [hx]; decide
    | inr hx => rw [hx]; decide
  have hmark : Char.ofNat x.toNat = '\t' ∨ Char.ofNat x.toNat = '\n' := by
    cases hx with
    | inl hx => rw [hx]; exact .inl rfl
    | inr hx => rw [hx]; exact .inr rfl
  have htext : Char.ofNat x.toNat ∉ l.itemType :: l.displayString.toList ++ l.selector.toList ++ l.host.toList := by
    intro hmem
    have hplain := l.plain _ hmem
    cases hmark with
    | inl hmark => exact hplain.1 hmark
    | inr hmark => exact hplain.2.2 hmark
  have hport : Char.ofNat x.toNat ∉ (toString l.port).toList := by
    intro hmem
    rw [Nat.toString_eq_ofList_toDigits, String.toList_ofList] at hmem
    have hdigit := Nat.isDigit_of_mem_toDigits (by decide) (by decide) hmem
    cases hmark with
    | inl hmark => rw [hmark] at hdigit; exact absurd hdigit (by decide)
    | inr hmark => rw [hmark] at hdigit; exact absurd hdigit (by decide)
  simp only [List.mem_append, List.mem_cons, not_or] at htext
  simp only [MenuLine.fields, List.forall_mem_cons]
  refine ⟨notMem_encode hsmall ?_, notMem_encode hsmall htext.1.2, notMem_encode hsmall htext.2,
    notMem_encode hsmall hport, by simp⟩
  simpa using htext.1.1

theorem length_splitOn (a : UInt8) (xs : Bytes) : (xs.splitOn a).length = xs.count a + 1 := by
  induction xs with
  | nil => rfl
  | cons x xs ih =>
    rw [List.splitOn, List.splitOnP_cons_eq_if_modifyHead, ← List.splitOn, List.count_cons]
    split
    · rw [List.length_cons, ih]
    · rw [List.length_modifyHead, ih, Nat.add_zero]

theorem notMem_intercalate {sep x : UInt8} {fields : List Bytes} (hne : x ≠ sep) (h : ∀ field ∈ fields, x ∉ field) :
    x ∉ [sep].intercalate fields := by
  induction fields with
  | nil => exact List.not_mem_nil
  | cons field fields ih =>
    have hfields := List.forall_mem_cons.1 h
    cases fields with
    | nil => simpa using hfields.1
    | cons next fields =>
      rw [List.intercalate_cons_cons]
      simp [hfields.1, hne, ih hfields.2]

theorem parseLine_of_count {line : Bytes} (h : line.count 9 ≤ 3) : parseLine line = none := by
  have hfields : ((line.rdropWhile (· = 13)).splitOn 9).length ≤ 4 := by
    rw [length_splitOn]
    have := (List.rdropWhile_prefix (· = 13) line).sublist.count_le 9
    omega
  unfold parseLine
  simp only []
  split
  · rfl
  · split
    · next hsplit =>
      rw [hsplit] at hfields
      simp only [List.length_cons] at hfields
      omega
    · rfl

theorem parseDirectory_render (menu : List MenuLine) : parseDirectory (render menu) = [] := by
  have hlines : ∀ line ∈ (menu.map MenuLine.bytes ++ [[46]]).map (· ++ [13]), 10 ∉ line ∧ line.count 9 ≤ 3 := by
    intro line hline
    obtain ⟨bytes, hbytes, rfl⟩ := List.mem_map.1 hline
    cases List.mem_append.1 hbytes with
    | inl hbytes =>
      obtain ⟨l, _, rfl⟩ := List.mem_map.1 hbytes
      have hcount := length_splitOn 9 l.bytes
      rw [MenuLine.bytes, List.splitOn_intercalate 9 (l.notMem_fields (.inl rfl)) (List.cons_ne_nil _ _),
        ← MenuLine.bytes] at hcount
      refine ⟨?_, ?_⟩
      · rw [List.mem_append, not_or]
        exact ⟨notMem_intercalate (by decide) (l.notMem_fields (.inr rfl)), by decide⟩
      · rw [List.count_append]
        exact (Nat.succ.inj hcount).ge
    | inr hbytes =>
      rw [List.mem_singleton.1 hbytes]
      decide
  rw [parseDirectory, render, terminated_eq_intercalate, List.splitOn_intercalate 10 ?_ (by simp),
    List.filterMap_eq_nil_iff]
  · intro line hline
    apply parseLine_of_count
    cases List.mem_append.1 hline with
    | inl hline => exact (hlines line hline).2
    | inr hline => rw [List.mem_singleton.1 hline]; decide
  · intro line hline
    cases List.mem_append.1 hline with
    | inl hline => exact (hlines line hline).1
    | inr hline => rw [List.mem_singleton.1 hline]; decide

/-- No address is read back from its URL, and of the menus only the empty one. -/
theorem survives_iff (a : Address) (menu : List MenuLine) : ¬ a.Survives ∧ (MenuSurvives menu ↔ menu = []) := by
  refine ⟨a.host_lost, ?_⟩
  rw [MenuSurvives, parseDirectory_render, eq_comm, List.map_eq_nil_iff]

theorem plain_ab :
    "ab" ≠ "" ∧ (∀ ch ∈ "ab".toList, ch ≠ ':' ∧ ch ≠ '/') ∧ ∀ ch ∈ "c".toList, ch ≠ '\r' ∧ ch ≠ '\n' :=
  ⟨by decide, List.all_iff_forall_prop.1 (by decide), List.all_iff_forall_prop.1 (by decide)⟩

/-- An address on it. -/
def addressAb : Address := ⟨"ab", 70, "c", plain_ab.1, plain_ab.2.1, plain_ab.2.2⟩

theorem plain_lineAb :
    (∀ ch ∈ '0' :: "About".toList ++ "c".toList ++ "ab".toList, ch ≠ '\t' ∧ ch ≠ '\r' ∧ ch ≠ '\n') ∧
      ∀ ch ∈ "ab".toList, ch.toNat < 128 :=
  ⟨List.all_iff_forall_prop.1 (by decide), List.all_iff_forall_prop.1 (by decide)⟩

/-- A line that lists a file there. -/
def lineAb : MenuLine := ⟨'0', "About", "c", "ab", 70, plain_lineAb.1, plain_lineAb.2⟩

/-- The address is read as one on the host `b`, and the menu of the one line as empty. -/
theorem not_survives : ¬ addressAb.Survives ∧ ¬ MenuSurvives [lineAb] := by
  refine ⟨addressAb.host_lost, fun h => ?_⟩
  rw [MenuSurvives, parseDirectory_render] at h
  cases h

example : parseUrl "gopher://ab:70/c" = .ok (some ("b", 70, "c")) := by decide

end Hledac.Transport.Gopher
