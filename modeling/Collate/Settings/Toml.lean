import Collate.Settings
import Collate.Toml.Document

/-!
Settings as a settings file gives them. Keys that are absent keep their defaults and unknown keys are
passed over. An array can stand for a table: its elements are the fields in their order.
-/
namespace Collate.Settings

open Toml (Fields Value)

/-- The values under some names. A point in time has no fields that a table could have. -/
def members? (names : List String) : Value → Option (List (Option Value))
  | .table _ fields => some (names.map (Fields.get? fields))
  | .array items | .tables items => some ((List.range names.length).map (items[·]?))
  | .moment => some (names.map fun _ => none)
  | _ => none

def flag? (current : Bool) : Option Value → Option Bool
  | none => some current
  | some (.boolean b) => some b
  | some _ => none

def count? (current : Option Nat) : Option Value → Option (Option Nat)
  | none => some current
  | some (.integer (.ofNat n)) => some (some n)
  | some _ => none

def name? (current : String) : Option Value → Option String
  | none => some current
  | some (.text s) => some s
  | some _ => none

def scan? (current : ScanSettings) : Option Value → Option ScanSettings
  | none => some current
  | some v => do
    match ← members? ["include_hidden", "follow_links", "max_depth"] v with
    | [hidden, links, depth] =>
      return ⟨← flag? current.includeHidden hidden, ← flag? current.followLinks links,
        ← count? current.maxDepth depth⟩
    | _ => none

def outputName? (current : String) : Option Value → Option String
  | none => some current
  | some v => do
    match ← members? ["file_name"] v with
    | [name] => name? current name
    | _ => none

def ofFields? (fields : Fields) : Option Settings := do
  return ⟨← scan? default.scan (fields.get? "scan"),
    ← outputName? default.outputName (fields.get? "output")⟩

def ofToml? (s : String) : Option Settings :=
  (Fields.read? s).bind ofFields?

end Collate.Settings
