/-!
TOML values, and putting a value at a dotted key. How a table came into being decides what may still be
added to it.
-/
namespace Collate.Toml

inductive TableKind where
  /-- Named only as a part of some header. -/
  | implied
  /-- Named only as a part of some dotted key. -/
  | dotted
  /-- Has a header of its own, or is the document. -/
  | headed
  /-- Written between braces. -/
  | inlined
deriving DecidableEq, Repr

inductive Value where
  | text (s : String)
  | integer (n : Int)
  | float
  | boolean (b : Bool)
  | moment
  | array (items : List Value)
  | table (kind : TableKind) (fields : List (String × Value))
  /-- The elements have headers of their own. -/
  | tables (items : List Value)

abbrev Fields := List (String × Value)

namespace Fields

def get? (fields : Fields) (key : String) : Option Value :=
  fields.lookup key

def set (key : String) (v : Value) : Fields → Fields
  | [] => [(key, v)]
  | (k, w) :: r => if k = key then (k, v) :: r else (k, w) :: set key v r

/-- A key is given a value once. -/
def insert? (fields : Fields) (key : String) (v : Value) : Option Fields :=
  if (fields.get? key).isSome then none else some (fields.set key v)

end Fields

/-- A dotted key passes through no table that was defined on its own, a header through any but an
inline one. -/
def TableKind.admits (byHeader : Bool) : TableKind → Bool
  | .implied | .dotted => true
  | .headed => byHeader
  | .inlined => false

/-- Changes the table at a path, making the tables that are missing. An array of tables stands for its
last element. -/
def alterAt? (byHeader : Bool) (change : TableKind → Fields → Option Fields) :
    List String → TableKind → Fields → Option Fields
  | [], kind, fields => change kind fields
  | key :: path, _, fields =>
    match fields.get? key with
    | none =>
      let kind : TableKind := if byHeader then .implied else .dotted
      (alterAt? byHeader change path kind []).map fun inner => fields.set key (.table kind inner)
    | some (.table kind inner) =>
      if kind.admits byHeader then
        (alterAt? byHeader change path kind inner).map fun inner =>
          fields.set key (.table kind inner)
      else none
    | some (.tables items) =>
      match items.getLast? with
      | some (.table kind inner) =>
        (alterAt? byHeader change path kind inner).map fun inner =>
          fields.set key (.tables (items.dropLast ++ [.table kind inner]))
      | _ => none
    | some _ => none

/-- Of a key the parts before the last name the table, which has to be one that dotted keys made. -/
def Fields.put? (fields : Fields) (key : List String) (v : Value) : Option Fields :=
  match key.getLast? with
  | none => none
  | some last =>
    let path := key.dropLast
    alterAt? false (fun kind inner =>
      if (kind = .dotted) = (path = []) then none else inner.insert? last v) path .headed fields

inductive Header where
  | document
  | table (key : List String)
  | element (key : List String)
deriving DecidableEq, Repr

/-- A header and the pairs below it. -/
structure Section where
  header : Header
  pairs : List (List String × Value)

def Section.fields? (s : Section) (start : Fields) : Option Fields :=
  s.pairs.foldlM (fun fields (key, v) => fields.put? key v) start

/-- A table that other headers only implied is taken up; any other entry of that name is a clash. -/
def Section.addTable? (s : Section) (name : String) (outer : Fields) : Option Fields :=
  match outer.get? name with
  | none => (s.fields? []).map fun fields => outer.set name (.table .headed fields)
  | some (.table .implied inner) =>
    (s.fields? inner).map fun fields => outer.set name (.table .headed fields)
  | some _ => none

def Section.addElement? (s : Section) (name : String) (outer : Fields) : Option Fields :=
  match outer.get? name with
  | none => (s.fields? []).map fun fields => outer.set name (.tables [.table .headed fields])
  | some (.tables items) =>
    (s.fields? []).map fun fields => outer.set name (.tables (items ++ [.table .headed fields]))
  | some _ => none

def Section.addTo? (document : Fields) (s : Section) : Option Fields :=
  match s.header with
  | .document => s.fields? document
  | .table key =>
    key.getLast?.bind fun name =>
      alterAt? true (fun _ outer => s.addTable? name outer) key.dropLast .headed document
  | .element key =>
    key.getLast?.bind fun name =>
      alterAt? true (fun _ outer => s.addElement? name outer) key.dropLast .headed document

def Fields.ofSections? (sections : List Section) : Option Fields :=
  sections.foldlM Section.addTo? []

end Collate.Toml
