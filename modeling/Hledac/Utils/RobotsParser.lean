import Hledac.Lib.Dict
import Hledac.Lib.Wildcard
import Hledac.Py.Parse

/-!
# The robots.txt parser

`_parse_robots_content` collects the rules of a text under the user agent named last, `can_fetch` looks
for the first rule that matches a path, the longest patterns first. `float` reads a crawl delay. When a
document was fetched and how long it is kept are left out.
-/

namespace Hledac.Utils

open Hledac.Lib Hledac.Py

/-- `Rule`; `utils/robots_parser.py:36-41`. -/
structure Rule where
  path : String
  allow : Bool
  lineNo : Nat
  deriving DecidableEq, Repr

/-- `RobotsDocument`; lines 44-51. `F` is the type of floats. -/
structure RobotsDocument (F : Type) where
  rules : Dict String (List Rule) := .empty
  sitemaps : List String := []
  crawlDelays : Dict String F := .empty

namespace RobotsParser

/-- What the loop over the lines has read. -/
structure Reading (F : Type) extends RobotsDocument F where
  currentAgent : String := "*"
  lineNo : Nat := 0

section

variable {F : Type} (float : String → Option F)

/-- The directive and the value of a line; `none` where the line is blank, a comment or has no colon. -/
def readLine (line : List Char) : Option (String × String) :=
  let line := stripChars line
  if line = [] ∨ line.head? = some '#' then none
  else (splitOnce ':' (String.ofList line)).map fun d => (lower (strip d.1), strip d.2)

/-- Puts the rules of an agent, which has none yet where it is not there. -/
def putRules (agent : String) (added : List Rule) (rules : Dict String (List Rule)) :
    Dict String (List Rule) :=
  rules.insert agent ((rules.get? agent).getD [] ++ added)

/-- One line of the loop; lines 182-208. -/
def parseLine (s : Reading F) (line : List Char) : Reading F :=
  let s := { s with lineNo := s.lineNo + 1 }
  match readLine line with
  | none => s
  | some (directive, value) =>
    if directive = "user-agent" then
      { s with currentAgent := value, rules := putRules value [] s.rules }
    else if directive = "allow" then
      { s with rules := putRules s.currentAgent [⟨value, true, s.lineNo⟩] s.rules }
    else if directive = "disallow" then
      { s with rules := putRules s.currentAgent [⟨value, false, s.lineNo⟩] s.rules }
    else if directive = "crawl-delay" then
      match float value with
      | some delay => { s with crawlDelays := s.crawlDelays.insert s.currentAgent delay }
      | none => s
    else if directive = "sitemap" then { s with sitemaps := s.sitemaps ++ [value] }
    else s

/-- `content.split("\n")`. -/
def lines (content : String) : List (List Char) := content.toList.splitOn '\n'

/-- `_parse_robots_content`; lines 171-217. -/
def parseRobotsContent (content : String) : RobotsDocument F :=
  ((lines content).foldl (parseLine float) {}).toRobotsDocument

/-- The pattern as a regular expression, its star any run without a line break, matched in full. -/
def globMatches (path pattern : String) : Bool :=
  Wildcard.fullMatch '*' (fun ch => decide (ch ≠ '\n')) pattern.toList path.toList

/-- `_path_matches`; lines 240-268. -/
def pathMatches (path pattern : String) : Bool :=
  if pattern = "/" then decide (path = "/")
  else if pattern.toList.getLast? = some '$' then
    decide (path.toList = pattern.toList.dropLast) || decide (path.toList = pattern.toList.dropLast ++ ['/'])
  else if '*' ∈ pattern.toList then globMatches path pattern
  else pattern.toList.isPrefixOf path.toList

/-- `sorted(rules, key=lambda r: len(r.path), reverse=True)`, which keeps the order of equal lengths. -/
def longestFirst (rules : List Rule) : List Rule :=
  rules.mergeSort fun r s => decide (s.path.length ≤ r.path.length)

/-- The loop of `can_fetch` over the rules. -/
def decides (path : String) (rules : List Rule) : Bool :=
  match (longestFirst rules).find? fun r => pathMatches path r.path with
  | some r => r.allow
  | none => true

/-- `robots_doc.rules.get(user_agent, robots_doc.rules.get("*", []))`. -/
def rulesFor (userAgent : String) (doc : RobotsDocument F) : List Rule :=
  (doc.rules.get? userAgent).getD ((doc.rules.get? "*").getD [])

/-- `can_fetch`; lines 219-238. -/
def canFetch (path userAgent : String) (robotsDoc : Option (RobotsDocument F)) : Bool :=
  match robotsDoc with
  | none => true
  | some doc => decides path (rulesFor userAgent doc)

end

/-! ### What the standard says -/

/-- The pattern matches the beginning of the path, or with a final `$` the whole of it. -/
def StandardMatches (pattern path : List Char) : Prop :=
  if pattern.getLast? = some '$' then Wildcard.Covers '*' (fun _ => True) pattern.dropLast path
  else ∃ start, start <+: path ∧ Wildcard.Covers '*' (fun _ => True) pattern start

/-- The rule is one for the path. An empty prohibition is for none. -/
def Applies (path : String) (r : Rule) : Prop :=
  (r.allow = true ∨ r.path ≠ "") ∧ StandardMatches r.path.toList path.toList

/-- Every prohibition for the path is outweighed by a permission that is no shorter. -/
def Allowed (path : String) (rules : List Rule) : Prop :=
  ∀ d ∈ rules, d.allow = false → Applies path d →
    ∃ a ∈ rules, a.allow = true ∧ Applies path a ∧ d.path.length ≤ a.path.length

/-- The rules of a text, each with the agents that head its group, and all agents named. -/
structure Groups where
  heads : List String := []
  heading : Bool := false
  named : List String := []
  rules : List (List String × Rule) := []
  lineNo : Nat := 0
  deriving DecidableEq, Repr

/-- A line without the comment at its end. -/
def uncommented (line : List Char) : List Char := line.takeWhile fun ch => ch ≠ '#'

/-- Reads a line: agents that follow one another head one group, rules belong to the group begun last. -/
def groupLine (g : Groups) (line : List Char) : Groups :=
  let g := { g with lineNo := g.lineNo + 1 }
  match readLine (uncommented line) with
  | none => g
  | some (directive, value) =>
    if directive = "user-agent" then
      { g with
        heads := if g.heading then g.heads ++ [value] else [value]
        heading := true
        named := g.named ++ [value] }
    else if directive = "allow" then
      { g with heading := false, rules := g.rules ++ [(g.heads, ⟨value, true, g.lineNo⟩)] }
    else if directive = "disallow" then
      { g with heading := false, rules := g.rules ++ [(g.heads, ⟨value, false, g.lineNo⟩)] }
    else g

/-- The groups of a text. -/
def groups (content : String) : Groups := (lines content).foldl groupLine {}

/-- Two names of agents that differ in case at most. -/
def SameAgent (a b : String) : Prop := lower a = lower b

instance : DecidableRel SameAgent := fun a b => inferInstanceAs (Decidable (lower a = lower b))

namespace Groups

/-- The rules of the groups that an agent heads. -/
def headedBy (agent : String) (g : Groups) : List Rule :=
  (g.rules.filter fun r => r.1.any fun a => SameAgent a agent).map Prod.snd

/-- The rules for an agent: those of its own groups where it is named, else those of `*`. -/
def standardRules (userAgent : String) (g : Groups) : List Rule :=
  if g.named.any fun a => SameAgent a userAgent then g.headedBy userAgent else g.headedBy "*"

end Groups

/-- The text allows the agent the path. -/
def StandardAllows (path userAgent content : String) : Prop :=
  Allowed path ((groups content).standardRules userAgent)

end RobotsParser

end Hledac.Utils
