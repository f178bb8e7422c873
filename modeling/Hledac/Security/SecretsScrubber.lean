import Hledac.Py.Re
import Hledac.Py.Text

/-!
# Scrubbing of secrets

`src/security/secrets_scrubber.py`. `scrub_secrets` replaces the matches of one pattern after the other by markers;
what fails there gives the text back as it is. `scrub_dict_recursive` applies it to the values of a nested structure,
to the values only. A text is the list of its characters.
-/

namespace Hledac.Security

open Hledac.Lib Hledac.Py Hledac.Py.Re

/-! ### The patterns -/

section Patterns

variable (u : CharClasses)

/-- `[0-9A-Za-z\\-_]` of a raw string: the hyphen makes a range from the backslash to the underscore. -/
def keyChar : Regex Char := set [asciiDigit, letter, within '\\' '_']

def hexDigit : Char → Bool := union [asciiDigit, within 'a' 'f', within 'A' 'F']

/-- `api[_-]?key`. -/
def apiKey : Regex Char := concat [text "api", optional (set [among "_-"]), text "key"]

/-- `password|passwd|pwd|secret|token|key|api[_-]?key|auth|bearer`. -/
def credentialName : Regex Char :=
  anyOf (text "password") [text "passwd", text "pwd", text "secret", text "token", text "key", apiKey, text "auth",
    text "bearer"]

/-- `\/\/[^:]+:[^@]+@`, user and password of a connection. -/
def userInfo : Regex Char :=
  concat [text "://", many1 (setNot [among ":"]), text ":", many1 (setNot [among "@"]), text "@"]

/-- A pattern of the list, with the flag that all of them have. -/
def secret (name : String) (r : Regex Char) (h : 0 < (ignoreCase r).minWidth) : String × Pattern Char :=
  (name, ⟨ignoreCase r, h⟩)

/-- `_SECRET_PATTERNS`. -/
def secretPatterns : List (String × Pattern Char) :=
  [secret "aws_access_key" (concat [u.boundary, anyOf (concat [text "A3T", set [upper, asciiDigit]]) [text "AKIA",
      text "ABIA", text "ACCA"], times (set [upper, asciiDigit]) 16, u.boundary]) (Nat.le_of_ble_eq_true rfl),
    secret "aws_secret_key" (concat [u.boundary, times (set [letter, asciiDigit, among "/+="]) 40, u.boundary])
      (Nat.le_of_ble_eq_true rfl),
    secret "github_token" (concat [u.boundary, text "gh", set [among "ps"], text "_",
      atLeast (set [letter, asciiDigit]) 36, u.boundary]) (Nat.le_of_ble_eq_true rfl),
    secret "github_oauth" (concat [u.boundary, text "github_pat_", times (set [letter, asciiDigit]) 22, text "_",
      times (set [letter, asciiDigit]) 59, u.boundary]) (Nat.le_of_ble_eq_true rfl),
    secret "slack_token" (concat [u.boundary, text "xox", set [among "baprs"], text "-",
      between (set [asciiDigit]) 10 13, text "-", between (set [asciiDigit]) 10 13,
      many (set [letter, asciiDigit, among "-"]), u.boundary]) (Nat.le_of_ble_eq_true rfl),
    secret "slack_webhook" (concat [text "https://hooks.slack.com/services/T", many1 (set [upper, asciiDigit]),
      text "/B", many1 (set [upper, asciiDigit]), text "/", many1 (set [letter, asciiDigit])])
      (Nat.le_of_ble_eq_true rfl),
    secret "google_api_key" (concat [u.boundary, text "AIza", times keyChar 35, u.boundary])
      (Nat.le_of_ble_eq_true rfl),
    secret "google_oauth" (concat [u.boundary, many1 (set [asciiDigit]), text "-", times (set [hexDigit]) 32,
      text ".apps.googleusercontent.com", u.boundary]) (Nat.le_of_ble_eq_true rfl),
    secret "azure_key" (concat [u.boundary, times (set [hexDigit]) 32, u.boundary]) (Nat.le_of_ble_eq_true rfl),
    secret "openai_api_key" (concat [u.boundary, text "sk-", times keyChar 48, u.boundary])
      (Nat.le_of_ble_eq_true rfl),
    secret "anthropic_api_key" (concat [u.boundary, text "sk-ant-", atLeast keyChar 48, u.boundary])
      (Nat.le_of_ble_eq_true rfl),
    secret "stripe_key" (concat [u.boundary, anyText "sk" ["rk", "pk"], text "_", anyText "live" ["test"], text "_",
      atLeast (set [asciiDigit, letter]) 24, u.boundary]) (Nat.le_of_ble_eq_true rfl),
    secret "twilio_key" (concat [u.boundary, text "SK", times (set [hexDigit]) 32, u.boundary])
      (Nat.le_of_ble_eq_true rfl),
    secret "sendgrid_key" (concat [u.boundary, text "SG.", times keyChar 22, text ".", times keyChar 43, u.boundary])
      (Nat.le_of_ble_eq_true rfl),
    secret "jwt_token" (concat [u.boundary, text "eyJ", many1 keyChar, text ".eyJ", many1 keyChar, text ".",
      many1 keyChar, u.boundary]) (Nat.le_of_ble_eq_true rfl),
    secret "bearer_token" (concat [u.boundary, text "Bearer", many1 u.space, many1 keyChar, text ".", many1 keyChar,
      text ".", many1 keyChar, u.boundary]) (Nat.le_of_ble_eq_true rfl),
    secret "basic_auth" (concat [u.boundary, text "Basic", many1 u.space,
      many1 (set [letter, asciiDigit, among "+/="]), u.boundary]) (Nat.le_of_ble_eq_true rfl),
    secret "password_param" (concat [credentialName, set [among "=:", u.isSpace], optional (set [among "\"'"]),
      many1 (setNot [among "\"'&", u.isSpace])]) (Nat.le_of_ble_eq_true rfl),
    secret "password_json" (concat [text "\"", credentialName, text "\"", many u.space, text ":", many u.space,
      text "\"", many1 (setNot [among "\""]), text "\""]) (Nat.le_of_ble_eq_true rfl),
    secret "private_key" (concat [text "-----BEGIN", many1 u.space, anyOf (text "RSA") [text "EC", text "DSA",
      text "OPENSSH", concat [text "PRIVATE", many1 u.space, text "KEY"],
      concat [text "PGP", many1 u.space, text "PRIVATE", many1 u.space, text "KEY"]], text "-----"])
      (Nat.le_of_ble_eq_true rfl),
    secret "generic_secret" (concat [anyOf (text "secret") [apiKey,
      concat [text "auth", optional (set [among "_-"]), text "token"],
      concat [text "access", optional (set [among "_-"]), text "token"]], many u.space, set [among ":="],
      many u.space, optional (set [among "\"'"]), atLeast (set [letter, asciiDigit, among "_-"]) 20,
      optional (set [among "\"'"])]) (Nat.le_of_ble_eq_true rfl),
    secret "db_connection" (concat [anyText "mysql" ["postgres", "postgresql", "mongodb", "redis", "sqlite"],
      userInfo]) (Nat.le_of_ble_eq_true rfl),
    secret "sap_connection" (concat [u.boundary, anyText "hana" ["sqlanywhere"], userInfo])
      (Nat.le_of_ble_eq_true rfl)]

end Patterns

/-- `[REDACTED:name]`. -/
def marker (name : String) : List Char := ("[REDACTED:" ++ name ++ "]").toList

/-- The patterns applied one after the other, line 214. -/
def scrubbed (u : CharClasses) (text : List Char) : List Char :=
  (secretPatterns u).foldl (fun result p => p.2.sub result (marker p.1)) text

/-- `scrub_secrets`, line 190; `raises` tells on which texts a substitution fails. -/
def scrubSecrets (u : CharClasses) (raises : List Char → Bool) (text : List Char) : List Char :=
  if raises text then text else scrubbed u text

/-! ### Nested values -/

/-- A key of a dictionary. -/
inductive Key where
  | str (s : List Char)
  | bytes (b : Bytes)
  | atom (n : Int)
  | tuple (items : List Key)

/-- The classes of sequences that are walked. -/
inductive ItemsKind where
  | list | tuple | set
  deriving DecidableEq

/-- A nested value; an atom is an `int`, a `float`, a `bool`, `None` or an object of another class. A set is given as
the list of its elements. -/
inductive Data where
  | str (s : List Char)
  | bytes (b : Bytes)
  | atom (n : Int)
  | items (kind : ItemsKind) (xs : List Data)
  | dict (entries : List (Key × Data))

section Scrub

variable (u : CharClasses) (raises : List Char → Bool)

mutual

/-- `scrub_dict_recursive`, line 224. Nothing that `scrub_secrets` does not catch fails in it. -/
def scrubDictRecursive (maxDepth : Nat) (depth : Nat) : Data → Data
  | .str s => if maxDepth < depth then .str (marker "max_depth") else .str (scrubSecrets u raises s)
  | .bytes b =>
    if maxDepth < depth then .str (marker "max_depth") else .str (scrubSecrets u raises (decodeReplace b).toList)
  | .atom n => if maxDepth < depth then .str (marker "max_depth") else .atom n
  | .items kind xs =>
    if maxDepth < depth then .str (marker "max_depth") else .items kind (scrubItems maxDepth (depth + 1) xs)
  | .dict entries =>
    if maxDepth < depth then .str (marker "max_depth") else .dict (scrubEntries maxDepth (depth + 1) entries)

def scrubItems (maxDepth : Nat) (depth : Nat) : List Data → List Data
  | [] => []
  | x :: xs => scrubDictRecursive maxDepth depth x :: scrubItems maxDepth depth xs

def scrubEntries (maxDepth : Nat) (depth : Nat) : List (Key × Data) → List (Key × Data)
  | [] => []
  | (k, v) :: rest => (k, scrubDictRecursive maxDepth depth v) :: scrubEntries maxDepth depth rest

end

end Scrub

end Hledac.Security
