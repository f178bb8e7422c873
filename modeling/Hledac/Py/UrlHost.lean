import Hledac.Py.Case
import Hledac.Py.UrlParts

/-!
# Hosts and ports

Network locations put together from a host and a port, and the Unicode tables that lower-casing, normal
form C and the checks of a location read. What a canonical URL relies on is part of the tables.
-/

namespace Hledac.Py

namespace UrlParser

/-- A port as it stands behind a host. -/
def portSuffix : Option Nat → List Char
  | some n => ':' :: Nat.toDigits 10 n
  | none => []

variable {host : List Char} {n? : Option Nat}

theorem portSuffix_cases {ch : Char} (h : ch ∈ portSuffix n?) : ch = ':' ∨ ch.isDigit = true := by
  cases n? with
  | none => cases h
  | some n =>
    rcases List.mem_cons.1 h with rfl | hmem
    · exact .inl rfl
    · exact .inr (Nat.isDigit_of_mem_toDigits (by decide) (by decide) hmem)

theorem notMem_withPort {ch : Char} (h : ch ∉ host) (hcolon : ch ≠ ':') (hdigit : ch.isDigit = false) :
    ch ∉ host ++ portSuffix n? := by
  intro hmem
  rcases List.mem_append.1 hmem with hmem | hmem
  · exact h hmem
  · rcases portSuffix_cases hmem with heq | heq
    · exact hcolon heq
    · rw [hdigit] at heq
      cases heq

theorem hostOf_withPort (huser : '@' ∉ host) (hbracket : '[' ∉ host) :
    hostOf (host ++ portSuffix n?) = host.takeWhile (· ≠ ':') := by
  rw [hostOf_of_notMem (notMem_withPort huser (by decide) (by decide))
    (notMem_withPort hbracket (by decide) (by decide))]
  apply (takeWhile_append_stop _ _).1
  intro y hy
  cases n? with
  | none => cases hy
  | some n =>
    obtain rfl := Option.some.inj hy
    rfl

theorem takeWhile_colon (hcolon : ':' ∉ host) : host.takeWhile (· ≠ ':') = host := by
  apply List.takeWhile_eq_self_iff.2
  intro ch hch
  rw [decide_eq_true_iff]
  rintro rfl
  exact hcolon hch

theorem port_withPort (huser : '@' ∉ host) (hbracket : '[' ∉ host) (hcolon : ':' ∉ host)
    (hn : ∀ n, n? = some n → n ≤ 65535) : port (host ++ portSuffix n?) = some n? := by
  have hinfo : hostInfo (host ++ portSuffix n?) = host ++ portSuffix n? :=
    hostInfo_of_notMem (notMem_withPort huser (by decide) (by decide))
  have hall : ∀ ch ∈ host, decide (ch ≠ ':') = true := by
    intro ch hch
    rw [decide_eq_true_iff]
    rintro rfl
    exact hcolon hch
  have hafter : afterHost (host ++ portSuffix n?) = portSuffix n? := by
    rw [afterHost, hinfo, if_neg (notMem_withPort hbracket (by decide) (by decide)),
      List.dropWhile_append_of_pos hall]
    cases n? <;> rfl
  rw [port, portText, hafter]
  cases n? with
  | none => rfl
  | some n =>
    have htext : ((portSuffix (some n)).dropWhile (· ≠ ':')).drop 1 = Nat.toDigits 10 n := rfl
    have hdigits : (Nat.toDigits 10 n).all Char.isDigit = true :=
      List.all_eq_true.2 fun ch hch => Nat.isDigit_of_mem_toDigits (by decide) (by decide) hch
    have hle : n ≤ 65535 := hn n rfl
    have hlen : (Nat.toDigits 10 n).length ≤ maxStrDigits :=
      Nat.le_trans ((Nat.length_toDigits_le_iff (by decide) (by decide : 0 < 5)).2 (by omega)) (by decide)
    simp only [htext, Nat.toDigits_ne_nil, if_false, hdigits, if_true, readNat_toDigits hlen, if_pos hle]

/-- A location has exactly one of the two brackets. -/
def mismatched (location : List Char) : Bool := decide ('[' ∈ location) != decide (']' ∈ location)

/-- The characters that delimit the parts of a URL, and those that are taken out of it. -/
def isDelimiter (ch : Char) : Bool :=
  ['/', '?', '#', '@', ':', '[', ']', '%', '\t', '\r', '\n'].contains ch

theorem isLocationChar_of_isDelimiter {ch : Char} (h : isDelimiter ch = false) :
    isLocationChar ch = true ∧ isBreak ch = false ∧ ch ≠ '?' ∧ ch ≠ '#' := by
  simp only [isDelimiter, List.contains_cons, List.contains_nil, Bool.or_false, Bool.or_eq_false_iff,
    beq_eq_false_iff_ne] at h
  obtain ⟨h₁, h₂, h₃, -, -, -, -, -, h₄, h₅, h₆⟩ := h
  simp [isLocationChar, isBreak, h₁, h₂, h₃, h₄, h₅, h₆]

end UrlParser

open UrlParser

/-- Tables of `str.lower` that keep the delimiters apart from all other characters. -/
structure DelimiterTables extends CaseTables where
  lowerFull_delimiter : ∀ ch, isDelimiter ch = true → lowerFull ch = [ch]
  delimiter_lowerFull : ∀ ch, ∀ d ∈ lowerFull ch, isDelimiter d = true → d = ch

namespace DelimiterTables

variable {d : DelimiterTables} {refuses : List Char → Bool} {host : List Char} {ch : Char}

theorem mem_lower_delimiter (hch : isDelimiter ch = true) {s : List Char} : ch ∈ d.lower s ↔ ch ∈ s := by
  have hne : ch ≠ 'Σ' ∧ ch ≠ 'σ' ∧ ch ≠ 'ς' := by
    refine ⟨?_, ?_, ?_⟩ <;> rintro rfl <;> exact absurd hch (by decide)
  constructor
  · intro h
    obtain ⟨c, hc, b, a, hmem⟩ := CaseTables.of_mem_lowerIn h
    rw [CaseTables.lowerChar] at hmem
    split at hmem
    · rw [List.mem_singleton] at hmem
      split at hmem
      · exact absurd hmem hne.2.2
      · exact absurd hmem hne.2.1
    · rw [d.delimiter_lowerFull c ch hmem hch]
      exact hc
  · intro h
    obtain ⟨b, a, hsub⟩ := CaseTables.mem_lowerIn (t := d.toCaseTables) h [] []
    apply hsub
    rw [CaseTables.lowerChar, if_neg hne.1, d.lowerFull_delimiter ch hch]
    exact List.mem_singleton_self ch

theorem mem_lowerHost (hch : isDelimiter ch = true) : ch ∈ lowerHost ⟨refuses, d.lower⟩ host ↔ ch ∈ host := by
  have hlower : ch ∈ d.lower (host.takeWhile (· ≠ '%')) ↔ ch ∈ host.takeWhile (· ≠ '%') :=
    mem_lower_delimiter hch
  rw [lowerHost, List.mem_append, hlower, ← List.mem_append, List.takeWhile_append_dropWhile]

theorem lowerHost_eq_nil : lowerHost ⟨refuses, d.lower⟩ host = [] ↔ host = [] := by
  have hlower : d.lower (host.takeWhile (· ≠ '%')) = [] ↔ host.takeWhile (· ≠ '%') = [] :=
    CaseTables.lower_eq_nil
  rw [lowerHost, List.append_eq_nil_iff, hlower, ← List.append_eq_nil_iff, List.takeWhile_append_dropWhile]

theorem lowerHost_lowerHost : lowerHost ⟨refuses, d.lower⟩ (lowerHost ⟨refuses, d.lower⟩ host) =
    lowerHost ⟨refuses, d.lower⟩ host := by
  have hpercent : ∀ ch ∈ d.lower (host.takeWhile (· ≠ '%')), decide (ch ≠ '%') = true := by
    intro c hc
    rw [decide_eq_true_iff]
    rintro rfl
    have hmem : '%' ∈ host.takeWhile (· ≠ '%') := (mem_lower_delimiter rfl).1 hc
    exact absurd (List.mem_takeWhile_imp hmem) (by decide)
  have hstop : ∀ y, (host.dropWhile (· ≠ '%')).head? = some y → decide (y ≠ '%') = false := by
    intro y hy
    rcases dropWhile_ne_eq '%' host with hnil | ⟨after, hafter⟩
    · rw [hnil] at hy
      cases hy
    · rw [hafter] at hy
      obtain rfl := Option.some.inj hy
      rfl
  obtain ⟨htake, hdrop⟩ := takeWhile_append_stop (d.lower (host.takeWhile (· ≠ '%'))) hstop
  have hlower : d.lower (d.lower (host.takeWhile (· ≠ '%'))) = d.lower (host.takeWhile (· ≠ '%')) :=
    CaseTables.lower_of_lowered fun _ hd => CaseTables.lowered_of_mem_lower hd
  have htext : lowerHost ⟨refuses, d.lower⟩ host =
      d.lower (host.takeWhile (· ≠ '%')) ++ host.dropWhile (· ≠ '%') := rfl
  rw [htext, lowerHost, htake, hdrop, List.takeWhile_eq_self_iff.2 hpercent,
    List.dropWhile_eq_nil_iff.2 hpercent, List.nil_append]
  exact congrArg (· ++ _) hlower

theorem toLower_delimiter (h : isDelimiter ch.toLower = true) : ch.toLower = ch := by
  apply Char.ext
  apply UInt32.toNat_inj.1
  show ch.toLower.toNat = ch.toNat
  have hnat := toNat_toLower ch
  have hne : ¬ (97 ≤ ch.toLower.toNat ∧ ch.toLower.toNat ≤ 122) := by
    simp only [isDelimiter, List.contains_cons, List.contains_nil, Bool.or_false, Bool.or_eq_true, beq_iff_eq] at h
    rcases h with h | h | h | h | h | h | h | h | h | h | h <;> rw [h] <;> decide
  split at hnat
  · omega
  · exact hnat

/-- The tables as they are on ASCII and on the three sigmas. -/
def ascii : DelimiterTables where
  toCaseTables := CaseTables.ascii
  lowerFull_delimiter ch h := by
    simp only [isDelimiter, List.contains_cons, List.contains_nil, Bool.or_false, Bool.or_eq_true, beq_iff_eq] at h
    rcases h with rfl | rfl | rfl | rfl | rfl | rfl | rfl | rfl | rfl | rfl | rfl <;> rfl
  delimiter_lowerFull ch c hc h := by
    rw [CaseTables.ascii] at hc
    dsimp only at hc
    split at hc
    · rw [List.mem_singleton.1 hc] at h
      exact absurd h (by decide)
    · rw [List.mem_singleton.1 hc] at h ⊢
      exact toLower_delimiter h

end DelimiterTables

/-- What the parser and the canonical form read of the Unicode database: the tables of `str.lower`, the
checks of hosts in brackets and of compatibility characters, and `unicodedata.normalize("NFC", ...)`. -/
structure UrlTables extends DelimiterTables where
  refuses : List Char → Bool
  nfc : List Char → List Char
  delimiter_nfc : ∀ s d, isDelimiter d = true → (d ∈ nfc s ↔ d ∈ s)
  nfc_nfc : ∀ s, nfc (nfc s) = nfc s
  nfc_eq_nil : ∀ s, nfc s = [] ↔ s = []
  lowerHost_nfc : ∀ s, lowerHost ⟨refuses, toCaseTables.lower⟩ (nfc (lowerHost ⟨refuses, toCaseTables.lower⟩ s)) =
    nfc (lowerHost ⟨refuses, toCaseTables.lower⟩ s)
  refuses_nil : refuses [] = false
  refuses_host : ∀ location, mismatched location = false → refuses location = false →
    '[' ∉ hostOf location → ']' ∉ hostOf location → ∀ n?,
      refuses (lowerHost ⟨refuses, toCaseTables.lower⟩ (hostOf location) ++ portSuffix n?) = false ∧
        refuses (nfc (lowerHost ⟨refuses, toCaseTables.lower⟩ (hostOf location)) ++ portSuffix n?) = false

namespace UrlTables

variable (t : UrlTables)

/-- `urllib.parse` with these tables. -/
def parser : UrlParser where
  refuses location := mismatched location || t.refuses location
  lower := t.lower

/-- The tables as they are on ASCII, where brackets hold well-formed addresses. -/
def ascii : UrlTables where
  toDelimiterTables := DelimiterTables.ascii
  refuses _ := false
  nfc s := s
  delimiter_nfc _ _ _ := Iff.rfl
  nfc_nfc _ := rfl
  nfc_eq_nil _ := Iff.rfl
  lowerHost_nfc _ := DelimiterTables.lowerHost_lowerHost
  refuses_nil := rfl
  refuses_host _ _ _ _ _ _ := ⟨rfl, rfl⟩

variable {t} {location host : List Char} {ch : Char}

theorem mem_lowerHost (hch : isDelimiter ch = true) : ch ∈ t.parser.lowerHost host ↔ ch ∈ host :=
  DelimiterTables.mem_lowerHost hch

theorem lowerHost_eq_nil : t.parser.lowerHost host = [] ↔ host = [] :=
  DelimiterTables.lowerHost_eq_nil

theorem lowerHost_lowerHost : t.parser.lowerHost (t.parser.lowerHost host) = t.parser.lowerHost host :=
  DelimiterTables.lowerHost_lowerHost

theorem mem_location_of_mem_hostOf (h : ch ∈ hostOf location) : ch ∈ location := by
  obtain ⟨before, heq, -⟩ := location_eq_append_hostOf location
  rw [heq]
  simp [h]

theorem at_notMem_hostOf (location : List Char) : '@' ∉ hostOf location := by
  intro h
  have hinfo : '@' ∈ hostInfo location := by
    rw [hostOf] at h
    split at h
    · exact (List.dropWhile_sublist _).mem (List.mem_of_mem_drop ((List.takeWhile_sublist _).mem h))
    · exact (List.takeWhile_sublist _).mem h
  rw [hostInfo, List.mem_reverse] at hinfo
  exact absurd (List.mem_takeWhile_imp hinfo) (by decide)

theorem hostOf_brackets (location : List Char) :
    ']' ∉ hostOf location ∨ ('[' ∉ hostOf location ∧ ':' ∉ hostOf location) := by
  rw [hostOf]
  split
  · left
    intro h
    exact absurd (List.mem_takeWhile_imp h) (by decide)
  · next hopen =>
    right
    refine ⟨fun h => hopen ((List.takeWhile_sublist _).mem h), fun h => ?_⟩
    exact absurd (List.mem_takeWhile_imp h) (by decide)

end UrlTables

end Hledac.Py
