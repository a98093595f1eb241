import Collate.Time

/-!
How far a run has come, and the bar that shows it.
-/
namespace Collate

structure Progress where
  filesWritten : Nat
  totalFiles : Nat
  bytesWritten : Nat
  /-- The file written last. -/
  currentFile : Option String
deriving DecidableEq, Repr

namespace Progress

def start (totalFiles : Nat) : Progress :=
  ⟨0, totalFiles, 0, none⟩

def advance (p : Progress) (file : String) (bytes : Nat) : Progress :=
  { p with
    filesWritten := p.filesWritten + 1
    bytesWritten := p.bytesWritten + bytes
    currentFile := some file }

def percentage (p : Progress) : Float :=
  if p.totalFiles = 0 then 0
  else Float.ofNat p.filesWritten / Float.ofNat p.totalFiles * 100

end Progress

/-- A bar without a length is one that is never shown. -/
structure Bar where
  length : Option Nat
  position : Nat
  message : String
  finished : Bool
deriving DecidableEq, Repr

namespace Bar

def idleMessage : String := "Concatenating files..."

def tabWidth : Nat := 8

/-- Every tab of a message is as wide as any other. -/
def widenTabs (s : String) : String :=
  String.ofList (s.toList.flatMap fun c => if c = '\t' then List.replicate tabWidth ' ' else [c])

def start (enabled : Bool) (totalFiles : Nat) : Bar :=
  if enabled then ⟨some totalFiles, 0, idleMessage, false⟩ else ⟨none, 0, "", false⟩

def «show» (b : Bar) (p : Progress) : Bar :=
  { b with
    position := p.filesWritten
    message :=
      match p.currentFile with
      | some file => widenTabs ("Appended " ++ file)
      | none => idleMessage }

def finish (b : Bar) (summary : String) (took : Duration) : Bar :=
  { b with
    position := b.length.getD b.position
    message := widenTabs (summary ++ " (completed in " ++ took.text ++ ")")
    finished := true }

end Bar

end Collate
