import Collate.Text.Invisible
import Collate.Text.Utf8

/-!
Quoted text as diagnostics show it: between double quotes, with backslash escapes for double quotes and
controls and the code point in braces for what cannot be seen. An octet of a path that belongs to no
character is shown in hexadecimal.
-/
namespace Collate.Quoted

def hexDigits (upper : Bool) (n : Nat) : String :=
  let digits := String.ofList (Nat.toDigits 16 n)
  if upper then digits.map Char.toUpper else digits

def codePoint (c : Char) : String :=
  "\\u\x7b" ++ hexDigits false c.toNat ++ "\x7d"

def escapeChar (c : Char) : String :=
  match c with
  | '\x00' => "\\0"
  | '\t' => "\\t"
  | '\r' => "\\r"
  | '\n' => "\\n"
  | '\\' => "\\\\"
  | '"' => "\\\""
  | c => if c.toNat < 0x20 || Invisible.contains c then codePoint c else c.toString

def text (s : String) : String :=
  "\"" ++ String.join (s.toList.map escapeChar) ++ "\""

def octet (b : UInt8) : String :=
  "\\x" ++ (if b < 0x10 then "0" else "") ++ hexDigits true b.toNat

def piece : Utf8.Piece → String
  | .scalar c => escapeChar c
  | .illFormed octets => String.join (octets.map octet)

def path (bs : Bytes) : String :=
  "\"" ++ String.join ((Utf8.pieces bs).map piece) ++ "\""

end Collate.Quoted
