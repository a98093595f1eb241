/-!
File extensions as the user writes them. Normalising drops one leading dot and refuses what can be
no part of a file name.
-/
namespace Collate.Extension

inductive Invalid where
  | empty
  | separator (extension : String)
deriving DecidableEq, Repr

def Invalid.message : Invalid → String
  | .empty => "Extension must not be empty (e.g. `rs` or `md`)"
  | .separator extension => "Extension must not contain path separators: " ++ extension

def dropDot (s : String) : String :=
  match s.toList with
  | '.' :: cs => String.ofList cs
  | _ => s

def isSeparator (c : Char) : Bool :=
  c == '/' || c == '\\' || c == '\x00'

def normalize (s : String) : Except Invalid String :=
  let extension := dropDot s
  if extension.toList.isEmpty then .error .empty
  else if extension.toList.any isSeparator then .error (.separator extension)
  else .ok extension

end Collate.Extension
