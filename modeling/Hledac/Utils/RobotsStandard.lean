import Hledac.Utils.RobotsParser

/-!
# robots.txt decisions against the standard

`can_fetch` decides as the standard does where the parser reads the group of the agent whole and where the
rules that come before the one that decides are matched as the standard matches them.
-/

namespace Hledac.Utils

open Hledac.Lib Hledac.Py

namespace RobotsParser

/-! ### The rule that decides -/

section Decision

variable {path : String} {rules : List Rule} {r s : Rule}

/-- The rule is matched where the standard applies it. -/
def ReadsRule (path : String) (r : Rule) : Prop := pathMatches path r.path = true ↔ Applies path r

/-- A longer rule that is read as the standard does is for the path. -/
def Outweighed (path : String) (rules : List Rule) (r : Rule) : Prop :=
  ∃ s ∈ rules, r.path.length < s.path.length ∧ ReadsRule path s ∧ Applies path s

/-- Where no longer rule is for the path, a rule is read as the standard does, and no prohibition stands
before a permission of its length. -/
structure ReadsRules (path : String) (rules : List Rule) : Prop where
  rule : ∀ r ∈ rules, ReadsRule path r ∨ Outweighed path rules r
  tie : ∀ d a, [d, a].Sublist rules → d.allow = false → a.allow = true → d.path.length = a.path.length →
    Applies path d → Applies path a → Outweighed path rules d

theorem longestFirst_perm (rules : List Rule) : (longestFirst rules).Perm rules :=
  List.mergeSort_perm rules _

private theorem le_trans_length (r s t : Rule) (hrs : decide (s.path.length ≤ r.path.length) = true)
    (hst : decide (t.path.length ≤ s.path.length) = true) :
    decide (t.path.length ≤ r.path.length) = true :=
  decide_eq_true ((of_decide_eq_true hst).trans (of_decide_eq_true hrs))

private theorem le_total_length (r s : Rule) :
    (decide (s.path.length ≤ r.path.length) || decide (r.path.length ≤ s.path.length)) = true := by
  rw [Bool.or_eq_true, decide_eq_true_iff, decide_eq_true_iff]
  exact Nat.le_total _ _

theorem longestFirst_sorted (rules : List Rule) :
    (longestFirst rules).Pairwise fun r s => s.path.length ≤ r.path.length :=
  (List.pairwise_mergeSort le_trans_length le_total_length rules).imp fun h => of_decide_eq_true h

theorem filter_longestFirst (n : Nat) (rules : List Rule) :
    (longestFirst rules).filter (fun r => r.path.length = n) = rules.filter fun r => r.path.length = n := by
  have hsorted : (rules.filter fun r => r.path.length = n).Pairwise
      fun r s => decide (s.path.length ≤ r.path.length) = true := by
    apply List.pairwise_of_forall_mem_list
    intro r hr s hs
    rw [List.mem_filter, decide_eq_true_iff] at hr hs
    rw [decide_eq_true_iff, hr.2, hs.2]
  have hsub := (List.sublist_mergeSort le_trans_length le_total_length hsorted
    (List.filter_sublist (l := rules))).filter fun r => decide (r.path.length = n)
  rw [List.filter_filter] at hsub
  simp only [Bool.and_self] at hsub
  exact (hsub.eq_of_length ((longestFirst_perm rules).filter _).length_eq.symm).symm

theorem first_match (h : (longestFirst rules).find? (fun r => pathMatches path r.path) = some r) :
    r ∈ rules ∧ pathMatches path r.path = true ∧
      (∀ s ∈ rules, r.path.length < s.path.length → pathMatches path s.path = false) ∧
      ∀ s ∈ rules, s ≠ r → pathMatches path s.path = true → r.path.length = s.path.length →
        [r, s].Sublist rules := by
  obtain ⟨hmatch, before, after, heq, hbefore⟩ := List.find?_eq_some_iff_append.1 h
  have hsorted := longestFirst_sorted rules
  rw [heq, List.pairwise_append, List.pairwise_cons] at hsorted
  have hbefore : ∀ s ∈ before, pathMatches path s.path = false := by
    intro s hs
    simpa using hbefore s hs
  have hmem : ∀ s ∈ rules, s ∈ before ∨ s = r ∨ s ∈ after := by
    intro s hs
    have hs := (longestFirst_perm rules).mem_iff.2 hs
    rwa [heq, List.mem_append, List.mem_cons] at hs
  refine ⟨(longestFirst_perm rules).mem_iff.1 (List.mem_of_find?_eq_some h), hmatch, ?_, ?_⟩
  · intro s hs hlt
    obtain hs | rfl | hs := hmem s hs
    · exact hbefore s hs
    · exact absurd hlt (Nat.lt_irrefl _)
    · exact absurd hlt (Nat.not_lt.2 (hsorted.2.1.1 s hs))
  · intro s hs hne hs' hlength
    obtain hs | heqs | hs := hmem s hs
    · exact absurd hs' (Bool.eq_false_iff.1 (hbefore s hs))
    · exact absurd heqs hne
    · have hpair : [r, s].Sublist (longestFirst rules) := by
        rw [heq]
        exact ((List.singleton_sublist.2 hs).cons_cons r).trans (List.sublist_append_right _ _)
      have hboth : [r, s].filter (fun t => decide (t.path.length = s.path.length)) = [r, s] := by
        simp [hlength]
      have hfilter := hpair.filter fun t => decide (t.path.length = s.path.length)
      rw [filter_longestFirst, hboth] at hfilter
      exact hfilter.trans List.filter_sublist

theorem decides_iff (h : ReadsRules path rules) : decides path rules = true ↔ Allowed path rules := by
  rw [decides]
  cases hfind : (longestFirst rules).find? fun r => pathMatches path r.path with
  | none =>
    have hnone : ∀ s ∈ rules, pathMatches path s.path = true → False := by
      intro s hs
      exact List.find?_eq_none.1 hfind s ((longestFirst_perm rules).mem_iff.2 hs)
    simp only [true_iff]
    intro d hd _ happlies
    cases h.rule d hd with
    | inl hread => exact absurd (hread.2 happlies) (hnone d hd)
    | inr hout =>
      obtain ⟨s, hs, -, hread, hs'⟩ := hout
      exact absurd (hread.2 hs') (hnone s hs)
  | some r =>
    obtain ⟨hr, hmatch, hlonger, hafter⟩ := first_match hfind
    have hweight : ∀ s, r.path.length ≤ s.path.length → ¬ Outweighed path rules s := by
      intro s hle hout
      obtain ⟨t, ht, hlt, hread, happlies⟩ := hout
      have hfalse := hlonger t ht (Nat.lt_of_le_of_lt hle hlt)
      rw [hread.2 happlies] at hfalse
      exact absurd hfalse (by decide)
    have hread : ∀ s ∈ rules, r.path.length ≤ s.path.length → ReadsRule path s :=
      fun s hs hle => (h.rule s hs).resolve_right (hweight s hle)
    have happlies : Applies path r := (hread r hr le_rfl).1 hmatch
    -- a rule for the path is no longer than the one that decides
    have hshort : ∀ s ∈ rules, Applies path s → s.path.length ≤ r.path.length := by
      intro s hs hs'
      by_contra hlt
      rw [Nat.not_le] at hlt
      have hfalse := hlonger s hs hlt
      rw [(hread s hs hlt.le).2 hs'] at hfalse
      exact absurd hfalse (by decide)
    show r.allow = true ↔ _
    cases hallow : r.allow with
    | true =>
      simp only [true_iff]
      exact fun d hd _ hd' => ⟨r, hr, hallow, happlies, hshort d hd hd'⟩
    | false =>
      apply iff_of_false (by decide)
      intro hallowed
      obtain ⟨a, ha, htrue, ha', hle⟩ := hallowed r hr hallow happlies
      have hlength := le_antisymm hle (hshort a ha ha')
      have hne : a ≠ r := by
        intro heq
        rw [heq, hallow] at htrue
        exact absurd htrue (by decide)
      exact hweight r le_rfl (h.tie r a (hafter a ha hne ((hread a ha hle).2 ha') hlength) hallow htrue
        hlength happlies ha')

end Decision

/-! ### Patterns that are read as the standard does -/

section Patterns

variable {path : String} {r : Rule}

theorem standardMatches_of_plain {pattern text : List Char} (hstar : '*' ∉ pattern)
    (hend : pattern.getLast? ≠ some '$') : StandardMatches pattern text ↔ pattern <+: text := by
  rw [StandardMatches, if_neg hend]
  constructor
  · intro h
    obtain ⟨start, hprefix, hcovers⟩ := h
    rwa [(Wildcard.covers_iff_eq hstar).1 hcovers]
  · intro h
    exact ⟨pattern, h, (Wildcard.covers_iff_eq hstar).2 rfl⟩

theorem readsRule_of_plain (hslash : r.path ≠ "/") (hstar : '*' ∉ r.path.toList)
    (hend : r.path.toList.getLast? ≠ some '$') (hempty : r.allow = true ∨ r.path ≠ "") :
    ReadsRule path r := by
  rw [ReadsRule, Applies, standardMatches_of_plain hstar hend, pathMatches, if_neg hslash, if_neg hend,
    if_neg hstar, List.isPrefixOf_iff_prefix]
  exact (and_iff_right hempty).symm

theorem readsRule_of_star (hstar : r.path.toList.getLast? = some '*') (hpath : '\n' ∉ path.toList) :
    ReadsRule path r := by
  have hmem : '*' ∈ r.path.toList := List.mem_of_getLast? hstar
  have hslash : r.path ≠ "/" := by
    intro h
    rw [h] at hstar
    exact absurd hstar (by decide)
  have hend : r.path.toList.getLast? ≠ some '$' := by
    rw [hstar]
    decide
  have hempty : r.path ≠ "" := by
    intro h
    rw [h] at hmem
    exact absurd hmem List.not_mem_nil
  rw [ReadsRule, Applies, StandardMatches, if_neg hend, pathMatches, if_neg hslash, if_neg hend,
    if_pos hmem, globMatches, Wildcard.fullMatch_iff, and_iff_right (Or.inr hempty)]
  constructor
  · intro h
    exact ⟨path.toList, List.prefix_rfl, h.imp fun _ _ _ => trivial⟩
  · intro h
    obtain ⟨start, ⟨rest, heq⟩, h⟩ := h
    rw [← heq]
    apply (h.append hstar fun _ _ => trivial).imp
    intro ch hch _
    rw [decide_eq_true_iff]
    intro hnewline
    rw [heq, hnewline] at hch
    exact hpath hch

theorem readsRule_of_anchored (hend : r.path.toList.getLast? = some '$')
    (hstar : '*' ∉ r.path.toList) (hpath : path.toList ≠ r.path.toList.dropLast ++ ['/']) :
    ReadsRule path r := by
  have hslash : r.path ≠ "/" := by
    intro h
    rw [h] at hend
    exact absurd hend (by decide)
  have hempty : r.path ≠ "" := by
    intro h
    rw [h] at hend
    exact absurd hend (by decide)
  have hbase : '*' ∉ r.path.toList.dropLast := fun h => hstar ((List.dropLast_sublist _).mem h)
  rw [ReadsRule, Applies, StandardMatches, if_pos hend, pathMatches, if_neg hslash, if_pos hend,
    Bool.or_eq_true, decide_eq_true_iff, decide_eq_true_iff, Wildcard.covers_iff_eq hbase,
    and_iff_right (Or.inr hempty), or_iff_left hpath, eq_comm]

end Patterns

/-! ### The rules of an agent -/

section Grouping

variable {F : Type} {float : String → Option F} {s : Reading F} {g : Groups} {line : List Char}
  {content path userAgent name value agent : String}

/-- The rules that the parser puts under a name: those whose group the name heads last. -/
def Groups.under (name : String) (g : Groups) : List Rule :=
  (g.rules.filter fun r => r.1.getLast?.getD "*" = name).map Prod.snd

/-- The name that an agent is looked up under. -/
def Groups.chosen (userAgent : String) (g : Groups) : String :=
  if userAgent ∈ g.named then userAgent else "*"

/-- No line names the agent in another case, the name looked up comes last in every head it is in, and
where it is `*` no rule stands before the first agent. -/
structure ReadsGroup (userAgent : String) (g : Groups) : Prop where
  exact : ∀ a ∈ g.named, SameAgent a userAgent → a = userAgent
  last : ∀ r ∈ g.rules, g.chosen userAgent ∈ r.1 → r.1.getLast? = some (g.chosen userAgent)
  headed : g.chosen userAgent = "*" → ∀ r ∈ g.rules, r.1 ≠ []

/-- The comments of a text stand on lines of their own. -/
def CommentsApart (content : String) : Prop :=
  ∀ line ∈ lines content, '#' ∈ line → (stripChars line).head? = some '#'

theorem readLine_uncommented (h : '#' ∈ line → (stripChars line).head? = some '#') :
    readLine (uncommented line) = readLine line := by
  by_cases hmem : '#' ∈ line
  · have hhead := h hmem
    have hcomment : readLine line = none := by
      rw [readLine]
      exact if_pos (Or.inr hhead)
    -- what stands before the mark of the comment is blank
    obtain ⟨rest, hdrop⟩ : ∃ rest, line.dropWhile isSpace = '#' :: rest := by
      obtain ⟨tail, htail⟩ : stripChars line <+: line.dropWhile isSpace := List.rdropWhile_prefix isSpace _
      cases hstrip : stripChars line with
      | nil =>
        rw [hstrip] at hhead
        exact absurd hhead (by decide)
      | cons ch rest =>
        rw [hstrip] at hhead htail
        obtain rfl := Option.some.inj hhead
        exact ⟨rest ++ tail, htail.symm⟩
    have hblank : ∀ ch ∈ line.takeWhile isSpace, isSpace ch = true := fun ch => List.mem_takeWhile_imp
    have hbefore : uncommented line = line.takeWhile isSpace := by
      rw [uncommented]
      conv_lhs => rw [← List.takeWhile_append_dropWhile (p := isSpace) (l := line), hdrop]
      rw [List.takeWhile_append_of_pos, List.takeWhile_cons_of_neg (by decide), List.append_nil]
      intro ch hch
      rw [decide_eq_true_iff]
      rintro rfl
      exact absurd (hblank _ hch) (by decide)
    have hstrip : stripChars (uncommented line) = [] := by
      rw [hbefore, stripChars, List.dropWhile_eq_nil_iff.2 hblank]
      rfl
    rw [hcomment, readLine, hstrip]
    exact if_pos (Or.inl rfl)
  · rw [uncommented, List.takeWhile_eq_self_iff.2]
    intro ch hch
    rw [decide_eq_true_iff]
    rintro rfl
    exact hmem hch

theorem get?_putRules (added : List Rule) (rules : Dict String (List Rule)) :
    (putRules agent added rules).get? name =
      if agent = name then some ((rules.get? agent).getD [] ++ added) else rules.get? name := by
  rw [putRules, Dict.get?_insert]

/-- The parser has read of the groups what it keeps of them. -/
structure Reads (s : Reading F) (g : Groups) : Prop where
  lineNo : s.lineNo = g.lineNo
  agent : s.currentAgent = g.heads.getLast?.getD "*"
  rules : ∀ name, s.rules.get? name =
    if name ∈ g.named ∨ g.under name ≠ [] then some (g.under name) else none

theorem Reads.getD (h : Reads s g) (name : String) : (s.rules.get? name).getD [] = g.under name := by
  rw [h.rules]
  split
  · rfl
  · next hnot => exact (not_not.1 (not_or.1 hnot).2).symm

theorem under_append {rules : List (List String × Rule)} (heads : List String) (r : Rule)
    (hrules : g.rules = rules ++ [(heads, r)]) :
    g.under name = { g with rules := rules : Groups }.under name ++
      if heads.getLast?.getD "*" = name then [r] else [] := by
  rw [Groups.under, hrules, List.filter_append, List.map_append, List.filter_singleton]
  by_cases h : heads.getLast?.getD "*" = name
  · rw [if_pos h, decide_eq_true h]
    rfl
  · rw [if_neg h, decide_eq_false h]
    rfl

theorem Reads.addRule (h : Reads s g) {r r' : Rule} (hr : r' = r) :
    Reads { s with rules := putRules s.currentAgent [r'] s.rules }
      { g with heading := false, rules := g.rules ++ [(g.heads, r)] } := by
  subst hr
  refine ⟨h.lineNo, h.agent, fun name => ?_⟩
  show (putRules s.currentAgent [r'] s.rules).get? name = _
  rw [get?_putRules, under_append g.heads r' rfl, h.getD, h.agent]
  by_cases hname : g.heads.getLast?.getD "*" = name
  · rw [if_pos hname, if_pos hname, hname, if_pos]
    · rfl
    · exact Or.inr (List.append_ne_nil_of_right_ne_nil _ (List.cons_ne_nil _ _))
  · rw [if_neg hname, if_neg hname, List.append_nil]
    exact h.rules name

theorem Reads.addAgent (h : Reads s g) (value : String) :
    Reads { s with currentAgent := value, rules := putRules value [] s.rules }
      { g with
        heads := if g.heading then g.heads ++ [value] else [value]
        heading := true
        named := g.named ++ [value] } := by
  refine ⟨h.lineNo, ?_, fun name => ?_⟩
  · show value = _
    cases hheading : g.heading with
    | true => simp
    | false => rfl
  · show (putRules value [] s.rules).get? name =
      if name ∈ g.named ++ [value] ∨ g.under name ≠ [] then some (g.under name) else none
    rw [get?_putRules, h.getD, List.append_nil]
    by_cases hname : value = name
    · have hmem : name ∈ g.named ++ [value] := List.mem_append_right _ (List.mem_singleton.2 hname.symm)
      rw [if_pos hname, if_pos (Or.inl hmem), hname]
    · have hmem : name ∈ g.named ++ [value] ↔ name ∈ g.named := by
        rw [List.mem_append, List.mem_singleton, or_iff_left (Ne.symm hname)]
      rw [if_neg hname]
      exact (h.rules name).trans (if_congr (or_congr_left hmem.symm) rfl rfl)

theorem Reads.parseLine (h : Reads s g) (hline : readLine (uncommented line) = readLine line) :
    Reads (parseLine float s line) (groupLine g line) := by
  have hnext : Reads { s with lineNo := s.lineNo + 1 } { g with lineNo := g.lineNo + 1 } :=
    ⟨congrArg (· + 1) h.lineNo, h.agent, h.rules⟩
  rw [RobotsParser.parseLine, groupLine, hline]
  cases hread : readLine line with
  | none => exact hnext
  | some d =>
    obtain ⟨directive, value⟩ := d
    dsimp only
    by_cases hagent : directive = "user-agent"
    · rw [if_pos hagent, if_pos hagent]
      exact hnext.addAgent value
    rw [if_neg hagent, if_neg hagent]
    by_cases hallow : directive = "allow"
    · rw [if_pos hallow, if_pos hallow]
      exact hnext.addRule (by rw [h.lineNo])
    rw [if_neg hallow, if_neg hallow]
    by_cases hdisallow : directive = "disallow"
    · rw [if_pos hdisallow, if_pos hdisallow]
      exact hnext.addRule (by rw [h.lineNo])
    rw [if_neg hdisallow, if_neg hdisallow]
    split
    · split
      · exact ⟨hnext.lineNo, hnext.agent, hnext.rules⟩
      · exact hnext
    · split
      · exact ⟨hnext.lineNo, hnext.agent, hnext.rules⟩
      · exact hnext

theorem reads_lines (float : String → Option F) (all : List (List Char))
    (h : ∀ line ∈ all, '#' ∈ line → (stripChars line).head? = some '#') :
    Reads (all.foldl (RobotsParser.parseLine float) {}) (all.foldl groupLine {}) := by
  induction all using List.reverseRecOn with
  | nil => exact ⟨rfl, rfl, fun _ => rfl⟩
  | append_singleton all line ih =>
    rw [List.foldl_append, List.foldl_append]
    apply (ih fun l hl => h l (List.mem_append_left _ hl)).parseLine
    exact readLine_uncommented (h line (List.mem_append_right _ List.mem_cons_self))

/-- The agents that head a group are named. -/
structure HeadsNamed (g : Groups) : Prop where
  heads : ∀ a ∈ g.heads, a ∈ g.named
  rules : ∀ r ∈ g.rules, ∀ a ∈ r.1, a ∈ g.named

theorem HeadsNamed.groupLine (h : HeadsNamed g) (line : List Char) : HeadsNamed (groupLine g line) := by
  have hrule : ∀ r, ∀ s ∈ g.rules ++ [(g.heads, r)], ∀ a ∈ s.1, a ∈ g.named := by
    intro r s hs
    cases List.mem_append.1 hs with
    | inl hs => exact h.rules s hs
    | inr hs =>
      obtain rfl := List.mem_singleton.1 hs
      exact h.heads
  rw [RobotsParser.groupLine]
  split
  · exact ⟨h.heads, h.rules⟩
  · split
    · refine ⟨?_, fun r hr a ha => List.mem_append_left _ (h.rules r hr a ha)⟩
      dsimp only
      split
      · intro a ha
        exact (List.mem_append.1 ha).elim (fun ha => List.mem_append_left _ (h.heads a ha))
          (List.mem_append_right _)
      · exact fun a ha => List.mem_append_right _ ha
    · split
      · exact ⟨h.heads, hrule _⟩
      · split
        · exact ⟨h.heads, hrule _⟩
        · exact ⟨h.heads, h.rules⟩

theorem headsNamed_groups (content : String) : HeadsNamed (groups content) := by
  rw [groups]
  induction lines content using List.reverseRecOn with
  | nil => exact ⟨fun _ h => h, fun _ h => absurd h List.not_mem_nil⟩
  | append_singleton all line ih =>
    rw [List.foldl_append]
    exact ih.groupLine line

theorem eq_star_of_sameAgent (h : SameAgent name "*") : name = "*" := by
  have hchars : name.toList.map Char.toLower = ['*'] := by
    have h := congrArg String.toList h
    rwa [lower, lower, String.toList_ofList, String.toList_ofList] at h
  obtain ⟨ch, hch⟩ := List.length_eq_one_iff.1 (by simpa using congrArg List.length hchars)
  rw [hch, List.map_singleton, List.cons.injEq] at hchars
  have hstar : ch = '*' := by
    have hnat := congrArg Char.toNat hchars.1
    rw [toNat_toLower] at hnat
    change _ = 42 at hnat
    apply Char.ext
    apply UInt32.toNat_inj.1
    show ch.toNat = 42
    split at hnat
    · omega
    · exact hnat
  rw [← String.ofList_toList (s := name), hch, hstar]

theorem under_chosen (h : ReadsGroup userAgent g) (hnamed : HeadsNamed g) :
    g.standardRules userAgent = g.under (g.chosen userAgent) := by
  have hsame : ∀ a ∈ g.named, SameAgent a (g.chosen userAgent) → a = g.chosen userAgent := by
    intro a ha hsame
    rw [Groups.chosen] at hsame ⊢
    split at hsame
    · next hmem => rw [if_pos hmem]; exact h.exact a ha hsame
    · next hmem => rw [if_neg hmem]; exact eq_star_of_sameAgent hsame
  have hheaded : g.headedBy (g.chosen userAgent) = g.under (g.chosen userAgent) := by
    rw [Groups.headedBy, Groups.under]
    congr 1
    apply List.filter_congr
    intro r hr
    rw [Bool.eq_iff_iff, List.any_eq_true, decide_eq_true_iff]
    constructor
    · intro hany
      obtain ⟨a, ha, hchosen⟩ := hany
      obtain rfl := hsame a (hnamed.rules r hr a ha) (of_decide_eq_true hchosen)
      rw [h.last r hr ha]
      rfl
    · intro heq
      cases hlast : r.1.getLast? with
      | none =>
        rw [hlast] at heq
        exact absurd (List.getLast?_eq_none_iff.1 hlast) (h.headed heq.symm r hr)
      | some a =>
        rw [hlast] at heq
        obtain rfl : a = g.chosen userAgent := heq
        exact ⟨_, List.mem_of_getLast? hlast, decide_eq_true rfl⟩
  rw [← hheaded, Groups.standardRules, Groups.chosen]
  by_cases hmem : userAgent ∈ g.named
  · rw [if_pos hmem, if_pos]
    exact List.any_eq_true.2 ⟨userAgent, hmem, decide_eq_true rfl⟩
  · rw [if_neg hmem, if_neg]
    intro hany
    obtain ⟨a, ha, hagent⟩ := List.any_eq_true.1 hany
    exact hmem (h.exact a ha (of_decide_eq_true hagent) ▸ ha)

theorem rulesFor_eq (hreads : Reads s g) (h : ReadsGroup userAgent g) (hnamed : HeadsNamed g) :
    rulesFor userAgent s.toRobotsDocument = g.under (g.chosen userAgent) := by
  rw [rulesFor, hreads.getD, hreads.rules]
  by_cases hmem : userAgent ∈ g.named
  · rw [if_pos (Or.inl hmem), Groups.chosen, if_pos hmem]
    rfl
  · have hchosen : g.chosen userAgent = "*" := if_neg hmem
    have hunder : g.under userAgent = [] := by
      rw [Groups.under, List.map_eq_nil_iff, List.filter_eq_nil_iff]
      intro r hr heq
      cases hlast : r.1.getLast? with
      | none => exact h.headed hchosen r hr (List.getLast?_eq_none_iff.1 hlast)
      | some a =>
        rw [hlast] at heq
        obtain rfl : a = userAgent := of_decide_eq_true heq
        exact hmem (hnamed.rules r hr a (List.mem_of_getLast? hlast))
    rw [if_neg (not_or.2 ⟨hmem, not_not.2 hunder⟩), hchosen]
    rfl

/-- The text is read as the standard does where comments stand on lines of their own, the group of the
agent is read whole, and its rules are read as far as they matter. -/
structure ReadsText (path userAgent content : String) : Prop where
  comments : CommentsApart content
  group : ReadsGroup userAgent (groups content)
  rules : ReadsRules path ((groups content).standardRules userAgent)

end Grouping

/-- A text with one prohibition for all agents. -/
def prohibiting (path : String) : String := "User-agent: *\nDisallow: " ++ path

end RobotsParser

end Hledac.Utils
