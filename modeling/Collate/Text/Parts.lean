/-!
Cutting a list at its separators.
-/
namespace Collate

/-- The parts between separators, empty ones included; there is always at least one. -/
def parts {α : Type} (isSeparator : α → Bool) : List α → List (List α)
  | [] => [[]]
  | a :: r =>
    if isSeparator a then [] :: parts isSeparator r
    else
      match parts isSeparator r with
      | [] => [[a]]
      | p :: ps => (a :: p) :: ps

end Collate
