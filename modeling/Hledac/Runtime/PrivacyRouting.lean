import Mathlib.Data.List.Infix
import Hledac.Py.Parse
import Hledac.Py.Url

/-!
# Privacy lanes and kinds of URLs

`PrivacyBudgetAllocator.get_lane_for_url` looks at the end of the whole URL, and
`_python_priority_classify_urls` at the end of what stands between `://` and the next slash. Both are compared
with the host that `urllib.parse` finds. URLs are lists of characters; priorities are rational numbers.
-/

namespace Hledac.Runtime

open Hledac.Py UrlParser

/-- What `get_lane_for_url` returns. -/
inductive Lane where
  | tor
  | i2p
  | nym
  | clearnet
  deriving DecidableEq

/-- The kinds of `_python_priority_classify_urls`. -/
inductive UrlKind where
  | clearnet
  | onion
  | i2p
  | freenet
  | empty
  | malformed
  deriving DecidableEq

/-- `.onion`. -/
def onionSuffix : List Char := ".onion".toList

/-- `.i2p`. -/
def i2pSuffix : List Char := ".i2p".toList

/-- `str.lower()`, for comparing with ASCII words that have no `k`. -/
def lowerChars (text : List Char) : List Char := text.map Char.toLower

/-- `get_lane_for_url`; `runtime/privacy_budget.py:144-161`. -/
def getLaneForUrl (url : List Char) : Lane :=
  let urlLower := stripChars (lowerChars url)
  if onionSuffix <:+ urlLower then .tor
  else if i2pSuffix <:+ urlLower then .i2p
  else if "nym:".toList <+: urlLower then .nym
  else .clearnet

/-- `re.search` with what the expression gives at a place. -/
def reSearch {β : Type*} (expression : List Char → Option β) (text : List Char) : Option β :=
  text.tails.findSome? expression

/-- The group of `([^/]+)`. -/
def segmentGroup (text : List Char) : Option (List Char) :=
  if text.takeWhile (· ≠ '/') = [] then none else some (text.takeWhile (· ≠ '/'))

/-- The group of `://([^/]+)`. -/
def authorityGroup (text : List Char) : Option (List Char) :=
  if "://".toList <+: text then segmentGroup (text.drop 3) else none

/-- The kind of one URL; `coordinators/fetch_coordinator.py:141-166`. -/
def classifyUrl (url : List Char) : UrlKind :=
  let trimmed := stripChars url
  if trimmed = [] then .empty
  else
    match (reSearch authorityGroup trimmed).or (reSearch segmentGroup (trimmed.dropWhile (· = '/'))) with
    | some group =>
      let host := lowerChars group
      if onionSuffix <:+ host then .onion
      else if i2pSuffix <:+ host ∨ ".b32.i2p".toList <:+ host then .i2p
      else if "freenet".toList <:+: host ∨ "hyphanet".toList <:+: host then .freenet
      else .clearnet
    | none => .malformed

/-- `_python_priority_classify_urls`; `fetch_coordinator.py:126-169`. -/
def pythonPriorityClassifyUrls (urls : List (List Char × ℚ)) : List (List Char × ℚ × UrlKind) :=
  (urls.mergeSort fun a b => decide (b.2 ≤ a.2)).map fun (url, priority) => (url, priority, classifyUrl url)

/-! ### Endings of texts -/

/-- The text ends so, in any case of letters. -/
def EndsIn (suffix text : List Char) : Prop := suffix <:+ lowerChars text

instance (suffix text : List Char) : Decidable (EndsIn suffix text) := inferInstanceAs (Decidable (_ <:+ _))

section Endings

variable {suffix text before after : List Char} {d : Char}

theorem suffix_append_cons_iff (h : d ∉ suffix) : suffix <:+ before ++ d :: after ↔ suffix <:+ after := by
  constructor
  · intro hsuffix
    rcases List.suffix_or_suffix_of_suffix hsuffix (List.suffix_append before (d :: after)) with hle | hge
    · rcases List.suffix_cons_iff.1 hle with heq | hle
      · exact absurd (heq ▸ List.mem_cons_self) h
      · exact hle
    · exact absurd (hge.subset List.mem_cons_self) h
  · intro hsuffix
    exact hsuffix.trans ((List.suffix_cons d after).trans (List.suffix_append before _))

theorem endsIn_append_cons_iff (h : d.toLower ∉ suffix) :
    EndsIn suffix (before ++ d :: after) ↔ EndsIn suffix after := by
  rw [EndsIn, lowerChars, List.map_append, List.map_cons]
  exact suffix_append_cons_iff h

/-- The endings of hidden services. -/
def hiddenSuffixes : List (List Char) := [onionSuffix, i2pSuffix]

theorem toLower_notMem (h : suffix ∈ hiddenSuffixes) (hd : d ∈ ['/', '@', '['] ++ [']', ':', '/', '?', '#']) :
    d.toLower ∉ suffix := by
  have hall : (hiddenSuffixes.all fun s => (['/', '@', '['] ++ [']', ':', '/', '?', '#']).all fun d =>
      !s.contains d.toLower) = true := by decide +kernel
  have hnot := List.all_eq_true.1 (List.all_eq_true.1 hall suffix h) d hd
  rwa [Bool.not_eq_true', List.contains_eq_mem, decide_eq_false_iff_not] at hnot

/-- Nothing follows, or what follows ends as the host does. -/
def Agrees (suffix tail host : List Char) : Prop := tail = [] ∨ (EndsIn suffix tail ↔ EndsIn suffix host)

theorem endsIn_host_iff (hsuffix : suffix ∈ hiddenSuffixes) {host tail : List Char}
    (hbefore : before = [] ∨ EndsAtDelimiter before) (htail : StartsAtDelimiter tail) :
    (EndsIn suffix (before ++ (host ++ tail)) ↔ EndsIn suffix host) ↔ Agrees suffix tail host := by
  rcases htail with rfl | ⟨delimiter, rest, rfl, hmem⟩
  · rw [List.append_nil, Agrees]
    refine iff_of_true ?_ (Or.inl rfl)
    rcases hbefore with rfl | ⟨start, delimiter, rfl, hmem⟩
    · rfl
    · have hd : delimiter.toLower ∉ suffix := toLower_notMem hsuffix (List.mem_append_left _ hmem)
      rw [List.append_assoc]
      exact endsIn_append_cons_iff hd
  · have hd : delimiter.toLower ∉ suffix := toLower_notMem hsuffix (List.mem_append_right _ hmem)
    rw [Agrees, ← List.append_assoc, endsIn_append_cons_iff hd]
    have hrest : EndsIn suffix ([] ++ delimiter :: rest) ↔ EndsIn suffix rest := endsIn_append_cons_iff hd
    rw [List.nil_append] at hrest
    rw [hrest]
    simp only [reduceCtorEq, false_or]

end Endings

/-! ### What the two functions look at -/

/-- A text from which, blanks around it aside, the URL parser takes nothing out: no tab and no line break in it,
and no control character before it. -/
structure UrlString where
  chars : List Char
  plain : cleaned (stripChars chars) = stripChars chars

/-- A parser that refuses some locations and lowers ASCII letters. -/
def asciiUrls (refuses : List Char → Bool) : UrlParser := ⟨refuses, lowerChars⟩

/-- What the classifier takes to stand at the end of the host: what follows it up to a slash, or what follows a
later `://` in a URL without a scheme. -/
def segmentEnd (url : List Char) : List Char :=
  if afterScheme url = url then
    (reSearch authorityGroup (authority url)).getD ((afterHostname url).takeWhile (· ≠ '/'))
  else (afterHostname url).takeWhile (· ≠ '/')

section Looks

variable {suffix url : List Char}

theorem stripChars_lowerChars (text : List Char) : stripChars (lowerChars text) = lowerChars (stripChars text) := by
  have hspace : isSpace ∘ Char.toLower = isSpace := funext isSpace_toLower
  rw [stripChars, stripChars, lowerChars, lowerChars, List.rdropWhile, List.rdropWhile, List.dropWhile_map, hspace,
    ← List.map_reverse, List.dropWhile_map, hspace, ← List.map_reverse]

theorem not_i2p_of_onion (h : EndsIn onionSuffix url) : ¬ EndsIn i2pSuffix url := by
  intro hi2p
  have hle : i2pSuffix <:+ onionSuffix := List.suffix_of_suffix_length_le hi2p h (by decide)
  exact absurd hle (by decide)

theorem getLaneForUrl_iff (url : List Char) :
    (getLaneForUrl url = .tor ↔ EndsIn onionSuffix (stripChars url)) ∧
      (getLaneForUrl url = .i2p ↔ EndsIn i2pSuffix (stripChars url)) := by
  rw [getLaneForUrl, stripChars_lowerChars]
  by_cases honion : onionSuffix <:+ lowerChars (stripChars url)
  · simp only [if_pos honion, reduceCtorEq, true_iff, false_iff]
    exact ⟨honion, not_i2p_of_onion honion⟩
  · simp only [if_neg honion]
    by_cases hi2p : i2pSuffix <:+ lowerChars (stripChars url)
    · simp only [if_pos hi2p, reduceCtorEq, true_iff, false_iff]
      exact ⟨honion, hi2p⟩
    · simp only [if_neg hi2p]
      split
      · simp only [reduceCtorEq, false_iff]
        exact ⟨honion, hi2p⟩
      · simp only [reduceCtorEq, false_iff]
        exact ⟨honion, hi2p⟩

theorem classifyUrl_iff {group : List Char} (hnil : stripChars url ≠ [])
    (hgroup : (reSearch authorityGroup (stripChars url)).or
      (reSearch segmentGroup ((stripChars url).dropWhile (· = '/'))) = some group) :
    (classifyUrl url = .onion ↔ EndsIn onionSuffix group) ∧ (classifyUrl url = .i2p ↔ EndsIn i2pSuffix group) := by
  have hb32 : ".b32.i2p".toList <:+ lowerChars group → i2pSuffix <:+ lowerChars group :=
    fun h => List.IsSuffix.trans (by decide) h
  rw [classifyUrl]
  simp only [if_neg hnil, hgroup]
  by_cases honion : onionSuffix <:+ lowerChars group
  · simp only [if_pos honion, reduceCtorEq, true_iff, false_iff]
    exact ⟨honion, not_i2p_of_onion honion⟩
  · simp only [if_neg honion]
    by_cases hi2p : i2pSuffix <:+ lowerChars group
    · simp only [if_pos (Or.inl hi2p), reduceCtorEq, true_iff, false_iff]
      exact ⟨honion, hi2p⟩
    · simp only [if_neg (not_or.2 ⟨hi2p, mt hb32 hi2p⟩)]
      split
      · simp only [reduceCtorEq, false_iff]
        exact ⟨honion, hi2p⟩
      · simp only [reduceCtorEq, false_iff]
        exact ⟨honion, hi2p⟩

theorem reSearch_cons {β : Type*} (expression : List Char → Option β) (ch : Char) (rest : List Char) :
    reSearch expression (ch :: rest) = (expression (ch :: rest)).or (reSearch expression rest) := by
  rw [reSearch, List.tails_cons, List.findSome?_cons]
  cases expression (ch :: rest) with
  | none => rfl
  | some group => rfl

theorem authorityGroup_cons_of_ne {ch : Char} (h : ch ≠ ':') (rest : List Char) :
    authorityGroup (ch :: rest) = none := by
  rw [authorityGroup, if_neg]
  intro hstart
  exact h (List.cons_prefix_cons.1 hstart).1.symm

theorem reSearch_authorityGroup_append {before : List Char} (h : ':' ∉ before) (rest : List Char) :
    reSearch authorityGroup (before ++ rest) = reSearch authorityGroup rest := by
  induction before with
  | nil => rfl
  | cons ch before ih =>
    rw [List.mem_cons, not_or] at h
    rw [List.cons_append, reSearch_cons, authorityGroup_cons_of_ne (Ne.symm h.1), Option.none_or, ih h.2]

theorem reSearch_of_some {β : Type*} {expression : List Char → Option β} {text : List Char} {group : β}
    (h : expression text = some group) : reSearch expression text = some group := by
  cases text with
  | nil => rw [reSearch, List.tails, List.findSome?_cons, h]
  | cons ch rest => rw [reSearch_cons, h, Option.some_or]

theorem EndsAtDelimiter.append {before : List Char} (start : List Char) (h : EndsAtDelimiter before) :
    EndsAtDelimiter (start ++ before) := by
  obtain ⟨text, delimiter, rfl, hmem⟩ := h
  exact ⟨start ++ text, delimiter, by rw [List.append_assoc], hmem⟩

theorem startsAtDelimiter_takeWhile {tail : List Char} (h : StartsAtDelimiter tail) :
    StartsAtDelimiter (tail.takeWhile (· ≠ '/')) := by
  rcases h with rfl | ⟨delimiter, after, rfl, hmem⟩
  · exact Or.inl rfl
  · by_cases hslash : delimiter = '/'
    · left
      rw [hslash]
      rfl
    · right
      refine ⟨delimiter, after.takeWhile (· ≠ '/'), ?_, hmem⟩
      rw [List.takeWhile_cons_of_pos (by simpa using hslash)]

theorem ne_nil_of_reSearch {group : List Char} (h : reSearch authorityGroup url = some group) : group ≠ [] := by
  obtain ⟨text, -, htext⟩ := List.exists_of_findSome?_eq_some h
  rw [authorityGroup] at htext
  split at htext
  · rw [segmentGroup] at htext
    split at htext
    · cases htext
    · next hnil => exact Option.some.inj htext ▸ hnil
  · cases htext

theorem url_eq_append (hplain : cleaned url = url) (hhost : hostOf (location url) ≠ []) :
    ∃ before, url = before ++ (hostOf (location url) ++ afterHostname url) ∧ EndsAtDelimiter before ∧
      StartsAtDelimiter (afterHostname url) := by
  obtain ⟨before, hauthority, -, hbefore, htail⟩ := authority_eq_append url
  have hslashes : EndsAtDelimiter ('/' :: '/' :: before) := by
    rcases hbefore with rfl | hbefore
    · exact ⟨['/'], '/', rfl, by simp⟩
    · exact EndsAtDelimiter.append ['/', '/'] hbefore
  rcases eq_append_authority (location_ne_nil hhost) with ⟨heq, -⟩ | ⟨scheme, heq, -, -⟩
  · rw [hplain, hauthority] at heq
    exact ⟨'/' :: '/' :: before, heq, hslashes, htail⟩
  · rw [hplain, hauthority] at heq
    refine ⟨scheme ++ [':'] ++ ('/' :: '/' :: before), ?_, EndsAtDelimiter.append _ hslashes, htail⟩
    rw [List.append_assoc, List.append_assoc]
    exact heq

theorem segment_eq_append (url : List Char) :
    ∃ before, (authority url).takeWhile (· ≠ '/') =
        before ++ (hostOf (location url) ++ (afterHostname url).takeWhile (· ≠ '/')) ∧
      (before = [] ∨ EndsAtDelimiter before) ∧ StartsAtDelimiter ((afterHostname url).takeWhile (· ≠ '/')) := by
  obtain ⟨before, hauthority, hlocation, hbefore, htail⟩ := authority_eq_append url
  refine ⟨before, ?_, hbefore, startsAtDelimiter_takeWhile htail⟩
  rw [hauthority, ← List.append_assoc, List.takeWhile_append_of_pos, List.append_assoc]
  intro ch hch
  have hloc : isLocationChar ch = true := List.mem_takeWhile_imp (hlocation.subset hch)
  rw [isLocationChar, Bool.not_eq_true', Bool.or_eq_false_iff, Bool.or_eq_false_iff] at hloc
  rw [decide_eq_true_iff]
  exact of_decide_eq_false hloc.1.1

theorem segmentGroup_authority (hhost : hostOf (location url) ≠ []) :
    segmentGroup (authority url) = some ((authority url).takeWhile (· ≠ '/')) := by
  obtain ⟨before, heq, -, -⟩ := segment_eq_append url
  rw [segmentGroup, if_neg]
  rw [heq]
  simp [hhost]

/-- The group that the classifier finds in a URL with a host. -/
theorem exists_group (hplain : cleaned url = url) (hhost : hostOf (location url) ≠ []) :
    ∃ group, (reSearch authorityGroup url).or (reSearch segmentGroup (url.dropWhile (· = '/'))) = some group ∧
      ∀ suffix ∈ hiddenSuffixes, (EndsIn suffix group ↔ EndsIn suffix (hostOf (location url))) ↔
        Agrees suffix (segmentEnd url) (hostOf (location url)) := by
  have hsegment : ∀ suffix ∈ hiddenSuffixes,
      (EndsIn suffix ((authority url).takeWhile (· ≠ '/')) ↔ EndsIn suffix (hostOf (location url))) ↔
        Agrees suffix ((afterHostname url).takeWhile (· ≠ '/')) (hostOf (location url)) := by
    intro suffix hsuffix
    obtain ⟨before, heq, hbefore, htail⟩ := segment_eq_append url
    rw [heq]
    exact endsIn_host_iff hsuffix hbefore htail
  rcases eq_append_authority (location_ne_nil hhost) with ⟨heq, hscheme⟩ | ⟨scheme, heq, hcolon, hscheme⟩
  · rw [hplain] at heq hscheme
    rw [segmentEnd, if_pos hscheme]
    have hsearch : reSearch authorityGroup url = reSearch authorityGroup (authority url) := by
      have hskip : reSearch authorityGroup (['/', '/'] ++ authority url) = _ :=
        reSearch_authorityGroup_append (by decide) (authority url)
      exact (congrArg (reSearch authorityGroup) heq).trans hskip
    rw [hsearch]
    cases hfound : reSearch authorityGroup (authority url) with
    | some group =>
      refine ⟨group, rfl, fun suffix _ => ?_⟩
      rw [Option.getD_some, Agrees, or_iff_right (ne_nil_of_reSearch hfound)]
    | none =>
      have hdrop : url.dropWhile (· = '/') = authority url := by
        have hgroup := segmentGroup_authority hhost
        rw [segmentGroup] at hgroup
        cases hauthority : authority url with
        | nil =>
          rw [hauthority] at hgroup
          cases hgroup
        | cons ch rest =>
          have hslash : ch ≠ '/' := by
            rintro rfl
            rw [hauthority] at hgroup
            cases hgroup
          rw [heq, hauthority, List.dropWhile_cons_of_pos (by rfl), List.dropWhile_cons_of_pos (by rfl),
            List.dropWhile_cons_of_neg (by simpa using hslash)]
      refine ⟨(authority url).takeWhile (· ≠ '/'), ?_, hsegment⟩
      rw [Option.none_or, hdrop, reSearch_of_some (segmentGroup_authority hhost)]
  · rw [hplain] at heq hscheme
    rw [segmentEnd, if_neg hscheme]
    refine ⟨(authority url).takeWhile (· ≠ '/'), ?_, hsegment⟩
    have hhere : authorityGroup (':' :: '/' :: '/' :: authority url) =
        some ((authority url).takeWhile (· ≠ '/')) := by
      rw [authorityGroup, if_pos ⟨authority url, rfl⟩]
      exact segmentGroup_authority hhost
    have hsearch : reSearch authorityGroup url = some ((authority url).takeWhile (· ≠ '/')) := by
      have hskip := reSearch_authorityGroup_append hcolon (':' :: '/' :: '/' :: authority url)
      exact (congrArg (reSearch authorityGroup) heq).trans (hskip.trans (reSearch_of_some hhere))
    rw [hsearch, Option.some_or]

theorem endsIn_lowerHost_iff (refuses : List Char → Bool) (host : List Char) :
    EndsIn suffix ((asciiUrls refuses).lowerHost host) ↔ EndsIn suffix host := by
  have hlower : lowerChars ((asciiUrls refuses).lowerHost host) = lowerChars host := by
    rw [lowerHost]
    show lowerChars (lowerChars _ ++ _) = _
    simp only [lowerChars, List.map_append, List.map_map, Function.comp_def, toLower_toLower]
    rw [← List.map_append, List.takeWhile_append_dropWhile]
  rw [EndsIn, EndsIn, hlower]

theorem eq_classifyUrl_of_mem {urls : List (List Char × ℚ)} {priority : ℚ} {kind : UrlKind}
    (h : (url, priority, kind) ∈ pythonPriorityClassifyUrls urls) : kind = classifyUrl url := by
  obtain ⟨entry, -, heq⟩ := List.mem_map.1 h
  simp only [Prod.mk.injEq] at heq
  rw [← heq.1]
  exact heq.2.2.symm

end Looks

/-- The lane of a URL tells its host apart if and only if nothing follows the host or what follows ends as the host
does, and so does its kind with what follows up to a slash. -/
theorem privacyRouting_iff (refuses : List Char → Bool) (url : UrlString) (host : List Char)
    (h : (asciiUrls refuses).hostname (stripChars url.chars) = some host) :
    (((getLaneForUrl url.chars = .tor ↔ EndsIn onionSuffix host) ∧
        (getLaneForUrl url.chars = .i2p ↔ EndsIn i2pSuffix host)) ↔
      ∀ suffix ∈ hiddenSuffixes, Agrees suffix (afterHostname (stripChars url.chars)) host) ∧
    ((∀ urls priority kind, (url.chars, priority, kind) ∈ pythonPriorityClassifyUrls urls →
        (kind = .onion ↔ EndsIn onionSuffix host) ∧ (kind = .i2p ↔ EndsIn i2pSuffix host)) ↔
      ∀ suffix ∈ hiddenSuffixes, Agrees suffix (segmentEnd (stripChars url.chars)) host) := by
  obtain ⟨hnil, rfl⟩ := eq_lowerHost_of_hostname _ h
  have hends : ∀ suffix, EndsIn suffix ((asciiUrls refuses).lowerHost (hostOf (location (stripChars url.chars)))) ↔
      EndsIn suffix (hostOf (location (stripChars url.chars))) := fun _ => endsIn_lowerHost_iff refuses _
  have hboth : onionSuffix ∈ hiddenSuffixes ∧ i2pSuffix ∈ hiddenSuffixes := by simp [hiddenSuffixes]
  simp only [Agrees, hends]
  constructor
  · obtain ⟨before, heq, hbefore, htail⟩ := url_eq_append url.plain hnil
    have hagrees : ∀ suffix ∈ hiddenSuffixes,
        (EndsIn suffix (stripChars url.chars) ↔ EndsIn suffix (hostOf (location (stripChars url.chars)))) ↔
          Agrees suffix (afterHostname (stripChars url.chars)) (hostOf (location (stripChars url.chars))) := by
      intro suffix hsuffix
      rw [← endsIn_host_iff hsuffix (Or.inr hbefore) htail, ← heq]
    rw [(getLaneForUrl_iff url.chars).1, (getLaneForUrl_iff url.chars).2, hagrees _ hboth.1, hagrees _ hboth.2]
    simp only [Agrees, hiddenSuffixes, List.forall_mem_cons, List.not_mem_nil, false_imp_iff, implies_true, and_true]
  · obtain ⟨group, hgroup, hagrees⟩ := exists_group url.plain hnil
    have htext : stripChars url.chars ≠ [] := by
      intro htext
      rw [htext] at hnil
      exact hnil rfl
    have hkind := classifyUrl_iff htext hgroup
    have hlist : (∀ urls priority kind, (url.chars, priority, kind) ∈ pythonPriorityClassifyUrls urls →
          (kind = .onion ↔ EndsIn onionSuffix (hostOf (location (stripChars url.chars)))) ∧
          (kind = .i2p ↔ EndsIn i2pSuffix (hostOf (location (stripChars url.chars))))) ↔
        (EndsIn onionSuffix group ↔ EndsIn onionSuffix (hostOf (location (stripChars url.chars)))) ∧
          (EndsIn i2pSuffix group ↔ EndsIn i2pSuffix (hostOf (location (stripChars url.chars)))) := by
      rw [← hkind.1, ← hkind.2]
      constructor
      · exact fun hall => hall [(url.chars, 0)] 0 _ (by simp [pythonPriorityClassifyUrls])
      · intro hone urls priority kind hmem
        rw [eq_classifyUrl_of_mem hmem]
        exact hone
    rw [hlist, hagrees _ hboth.1, hagrees _ hboth.2]
    simp only [Agrees, hiddenSuffixes, List.forall_mem_cons, List.not_mem_nil, false_imp_iff, implies_true, and_true]

/-- `http://abc.onion`. -/
def bareOnion : UrlString := ⟨"http://abc.onion".toList, by decide +kernel⟩

theorem privacyRouting_iff_bareOnion :
    (((getLaneForUrl bareOnion.chars = .tor ↔ EndsIn onionSuffix "abc.onion".toList) ∧
        (getLaneForUrl bareOnion.chars = .i2p ↔ EndsIn i2pSuffix "abc.onion".toList)) ↔
      ∀ suffix ∈ hiddenSuffixes, Agrees suffix (afterHostname (stripChars bareOnion.chars)) "abc.onion".toList) ∧
    ((∀ urls priority kind, (bareOnion.chars, priority, kind) ∈ pythonPriorityClassifyUrls urls →
        (kind = .onion ↔ EndsIn onionSuffix "abc.onion".toList) ∧ (kind = .i2p ↔ EndsIn i2pSuffix "abc.onion".toList)) ↔
      ∀ suffix ∈ hiddenSuffixes, Agrees suffix (segmentEnd (stripChars bareOnion.chars)) "abc.onion".toList) :=
  privacyRouting_iff (fun _ => false) bareOnion _ (by decide +kernel)

/-- A hidden service with a port and a path is sent to clearnet by both functions. -/
theorem not_privacyRouting :
    let url := "http://abc.onion:80/".toList
    (asciiUrls fun _ => false).hostname (stripChars url) = some "abc.onion".toList ∧
      EndsIn onionSuffix "abc.onion".toList ∧ getLaneForUrl url = .clearnet ∧
      pythonPriorityClassifyUrls [(url, 1)] = [(url, 1, .clearnet)] := by
  decide +kernel

end Hledac.Runtime
