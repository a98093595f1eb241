import Collate.Console

/-!
What a run reports while it works, in order. Some events are notices for people, the others are for the
log.
-/
namespace Collate

inductive Event where
  | notice (severity : Severity) (message : String)
  | settingsLoaded (path : Path)
  | skipped (path : Path)
  | scanFinished (root : Path) (suffix : String) (count : Nat)
  | blockAppended (header : String) (bytes : Nat)
  | concatenated (output : Path) (files bytes : Nat)
  | runFailed (failure : Failure)
deriving DecidableEq, Repr

end Collate
