import Collate.Toml.Value

/-!
Equality of TOML values can be decided, so what a document is read as can be checked by evaluation.
-/
namespace Collate.Toml

mutual

def same : Value → Value → Bool
  | .text s, .text t => s == t
  | .integer m, .integer n => m == n
  | .float, .float => true
  | .boolean a, .boolean b => a == b
  | .moment, .moment => true
  | .array vs, .array ws => sameItems vs ws
  | .table k fs, .table l gs => k == l && sameFields fs gs
  | .tables vs, .tables ws => sameItems vs ws
  | _, _ => false

def sameItems : List Value → List Value → Bool
  | [], [] => true
  | v :: vs, w :: ws => same v w && sameItems vs ws
  | _, _ => false

def sameFields : Fields → Fields → Bool
  | [], [] => true
  | (k, v) :: fs, (l, w) :: gs => k == l && same v w && sameFields fs gs
  | _, _ => false

end

mutual

theorem same_iff : ∀ v w, same v w ↔ v = w
  | .text _, w | .integer _, w | .float, w | .boolean _, w | .moment, w => by
      cases w <;> simp [same]
  | .array vs, w | .tables vs, w => by
      cases w <;> simp [same, sameItems_iff vs]
  | .table k fs, w => by
      cases w <;> simp [same, sameFields_iff fs]

theorem sameItems_iff : ∀ vs ws, sameItems vs ws ↔ vs = ws
  | [], ws => by cases ws <;> simp [sameItems]
  | v :: vs, ws => by cases ws <;> simp [sameItems, same_iff v, sameItems_iff vs]

theorem sameFields_iff : ∀ fs gs, sameFields fs gs ↔ fs = gs
  | [], gs => by cases gs <;> simp [sameFields]
  | (k, v) :: fs, gs => by
      cases gs <;> simp [sameFields, same_iff v, sameFields_iff fs, Prod.ext_iff]

end

instance : DecidableEq Value :=
  fun v w => decidable_of_iff _ (same_iff v w)

end Collate.Toml
