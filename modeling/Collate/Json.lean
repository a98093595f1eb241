import Collate.Text.Quoted

/-!
JSON values and their two written forms: on one line, and indented by two blanks. Members keep the
order they are given in.
-/
namespace Collate

inductive Json where
  | bool (b : Bool)
  | number (n : Nat)
  | string (s : String)
  | array (items : List Json)
  | object (members : List (String × Json))

namespace Json

/-- Quotes, backslashes and controls are escaped, and nothing else. -/
def escapeChar (c : Char) : String :=
  match c with
  | '"' => "\\\""
  | '\\' => "\\\\"
  | '\x08' => "\\b"
  | '\x0c' => "\\f"
  | '\n' => "\\n"
  | '\r' => "\\r"
  | '\t' => "\\t"
  | c =>
    if c.toNat < 0x20 then
      "\\u00" ++ (if c.toNat < 0x10 then "0" else "") ++ Quoted.hexDigits false c.toNat
    else c.toString

def quote (s : String) : String :=
  "\"" ++ String.join (s.toList.map escapeChar) ++ "\""

mutual

def compact : Json → String
  | bool b => if b then "true" else "false"
  | number n => toString n
  | string s => quote s
  | array items => "[" ++ compactItems items ++ "]"
  | object members => "\x7b" ++ compactMembers members ++ "\x7d"

def compactItems : List Json → String
  | [] => ""
  | [x] => x.compact
  | x :: y :: xs => x.compact ++ "," ++ compactItems (y :: xs)

def compactMembers : List (String × Json) → String
  | [] => ""
  | [(k, x)] => quote k ++ ":" ++ x.compact
  | (k, x) :: m :: ms => quote k ++ ":" ++ x.compact ++ "," ++ compactMembers (m :: ms)

end

def indent (depth : Nat) : String :=
  "\n" ++ String.ofList (List.replicate (2 * depth) ' ')

mutual

/-- `depth` is the depth of the line the value starts on. -/
def pretty (depth : Nat) : Json → String
  | bool b => if b then "true" else "false"
  | number n => toString n
  | string s => quote s
  | array [] => "[]"
  | array (x :: xs) => "[" ++ prettyItems (depth + 1) (x :: xs) ++ indent depth ++ "]"
  | object [] => "\x7b\x7d"
  | object (m :: ms) =>
    "\x7b" ++ prettyMembers (depth + 1) (m :: ms) ++ indent depth ++ "\x7d"

def prettyItems (depth : Nat) : List Json → String
  | [] => ""
  | [x] => indent depth ++ x.pretty depth
  | x :: y :: xs => indent depth ++ x.pretty depth ++ "," ++ prettyItems depth (y :: xs)

def prettyMembers (depth : Nat) : List (String × Json) → String
  | [] => ""
  | [(k, x)] => indent depth ++ quote k ++ ": " ++ x.pretty depth
  | (k, x) :: m :: ms =>
    indent depth ++ quote k ++ ": " ++ x.pretty depth ++ "," ++ prettyMembers depth (m :: ms)

end

end Json

end Collate
