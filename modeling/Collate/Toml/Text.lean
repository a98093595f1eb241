import Collate.Text.Escape

/-!
Strings of TOML: basic ones with escapes and literal ones without, on one line or on several. A string
is read one character at a time, and the state says what the characters so far have begun.
-/
namespace Collate.Toml

def isBlank (c : Char) : Bool :=
  c == ' ' || c == '\t'

/-- Controls other than the tab stand neither in strings nor in comments. -/
def isPlain (c : Char) : Bool :=
  c == '\t' || (0x20 ≤ c.toNat && c.toNat != 0x7F)

inductive TextState where
  | plain
  | escape
  /-- Digits still to come, and the value of those that came. -/
  | code (digits value : Nat)
  /-- A backslash before a line end; whether the line end has come. -/
  | fold (ended : Bool)
  /-- A carriage return, of a line end or of one that is folded away. -/
  | carriage (folded : Bool)

structure TextRule where
  quote : Char
  escapes : Bool
  lines : Bool

namespace TextRule

def afterEscape (rule : TextRule) (c : Char) : Option (List Char × TextState) :=
  match c with
  | 'b' => some (['\x08'], .plain)
  | 't' => some (['\t'], .plain)
  | 'n' => some (['\n'], .plain)
  | 'f' => some (['\x0c'], .plain)
  | 'r' => some (['\r'], .plain)
  | '"' => some (['"'], .plain)
  | '\\' => some (['\\'], .plain)
  | 'u' => some ([], .code 4 0)
  | 'U' => some ([], .code 8 0)
  | '\n' => if rule.lines then some ([], .fold true) else none
  | '\r' => if rule.lines then some ([], .carriage true) else none
  | c => if rule.lines && isBlank c then some ([], .fold false) else none

def afterPlain (rule : TextRule) (c : Char) : Option (List Char × TextState) :=
  if rule.escapes && c == '\\' then some ([], .escape)
  else if rule.lines && c == '\n' then some (['\n'], .plain)
  else if rule.lines && c == '\r' then some ([], .carriage false)
  else if isPlain c then some ([c], .plain)
  else none

/-- What a character other than a closing quote adds, and the state after it. -/
def step (rule : TextRule) (state : TextState) (c : Char) : Option (List Char × TextState) :=
  match state with
  | .plain => rule.afterPlain c
  | .escape => rule.afterEscape c
  | .code digits value =>
    (Escape.digit? c).bind fun d =>
      let value := value * 16 + d
      if digits ≤ 1 then (Escape.char? value).map fun c => ([c], .plain)
      else some ([], .code (digits - 1) value)
  | .fold ended =>
    if isBlank c then some ([], .fold ended)
    else if c == '\n' then some ([], .fold true)
    else if c == '\r' then some ([], .carriage true)
    else if ended then rule.afterPlain c
    else none
  | .carriage folded =>
    if c == '\n' then some (if folded then ([], .fold true) else (['\n'], .plain)) else none

/-- Whether a quote in this state is one, rather than an escaped or a misplaced character. -/
def ends : TextState → Bool
  | .plain | .fold true => true
  | _ => false

/-- After the opening quote, up to and with the closing one. -/
def readLine (rule : TextRule) : TextState → List Char → Option (List Char × List Char)
  | _, [] => none
  | state, c :: r =>
    if c == rule.quote && ends state then some ([], r)
    else do
      let (added, state) ← rule.step state c
      let (text, r) ← readLine rule state r
      return (added ++ text, r)

/-- After the three opening quotes. Of three to five quotes in a row the last three close the string;
`held` is the number of quotes just read. -/
def readLines (rule : TextRule) : Nat → TextState → List Char → Option (List Char × List Char)
  | held, _, [] => if 3 ≤ held then some (List.replicate (held - 3) rule.quote, []) else none
  | held, state, c :: r =>
    if held = 5 then some (List.replicate 2 rule.quote, c :: r)
    else if c == rule.quote && ends state then readLines rule (held + 1) .plain r
    else if 3 ≤ held then some (List.replicate (held - 3) rule.quote, c :: r)
    else do
      let (added, state) ← rule.step state c
      let (text, r) ← readLines rule 0 state r
      return (List.replicate held rule.quote ++ added ++ text, r)

end TextRule

/-- A line end right after the opening quotes is no part of the string. -/
def dropLineEnd : List Char → List Char
  | '\n' :: r => r
  | '\r' :: '\n' :: r => r
  | cs => cs

/-- A string that has no line ends, as keys have to be. -/
def readShortText : List Char → Option (String × List Char)
  | '"' :: r => (TextRule.readLine ⟨'"', true, false⟩ .plain r).map fun (s, r) => (String.ofList s, r)
  | '\'' :: r => (TextRule.readLine ⟨'\'', false, false⟩ .plain r).map fun (s, r) => (String.ofList s, r)
  | _ => none

def readText : List Char → Option (String × List Char)
  | '"' :: '"' :: '"' :: r =>
    (TextRule.readLines ⟨'"', true, true⟩ 0 .plain (dropLineEnd r)).map fun (s, r) =>
      (String.ofList s, r)
  | '\'' :: '\'' :: '\'' :: r =>
    (TextRule.readLines ⟨'\'', false, true⟩ 0 .plain (dropLineEnd r)).map fun (s, r) =>
      (String.ofList s, r)
  | cs => readShortText cs

end Collate.Toml
