import Collate.Arguments.Basic

/-!
Values of options and of the positional argument: which are refused, and how they are stored. Every
option is stored once.
-/
namespace Collate

/-- Depths that can be asked for are below this. -/
def depthLimit : Nat := 0x10000000000000000

namespace Depth

inductive Invalid where
  | empty
  | notADigit
  | tooLarge
deriving DecidableEq, Repr

def Invalid.message : Invalid → String
  | .empty => "cannot parse integer from empty string"
  | .notADigit => "invalid digit found in string"
  | .tooLarge => "number too large to fit in target type"

def readDigits : Nat → List Char → Except Invalid Nat
  | n, [] => .ok n
  | n, c :: r =>
    if !c.isDigit then .error .notADigit
    else
      let next := 10 * n + (c.toNat - '0'.toNat)
      if next < depthLimit then readDigits next r else .error .tooLarge

/-- Decimal digits after at most one plus sign. -/
def read : List Char → Except Invalid Nat
  | [] => .error .empty
  | ['+'] => .error .notADigit
  | '+' :: r => readDigits 0 r
  | cs => readDigits 0 cs

end Depth

/-- What has been stored so far. -/
structure Given where
  extension : Option String
  root : Option Path
  outputName : Option String
  config : Option Path
  includeHidden : Bool
  followLinks : Bool
  maxDepth : Option Nat
  format : Option Format
  verbosity : Nat
  quiet : Bool
  /-- Of the two switches that exclude each other, the last one was `verbose`. -/
  verboseLast : Bool
  dryRun : Bool
deriving DecidableEq, Repr

namespace Given

def nothing : Given :=
  ⟨none, none, none, none, false, false, none, none, 0, false, false, false⟩

def has (g : Given) : Setting → Bool
  | .root => g.root.isSome
  | .outputName => g.outputName.isSome
  | .config => g.config.isSome
  | .maxDepth => g.maxDepth.isSome
  | .outputFormat => g.format.isSome

def asText (value : Bytes) : Except UsageError String :=
  match Utf8.decode? value with
  | some s => .ok s
  | none => .error .notText

def storePath (setting : Setting) (value : Bytes) : Except UsageError Path :=
  if value.isEmpty then .error (.missingValue setting) else .ok value

def readDepth (value : Bytes) : Except UsageError Nat := do
  let s ← asText value
  match Depth.read s.toList with
  | .ok n => .ok n
  | .error e => .error (.invalidValue s Setting.maxDepth.label e.message)

def readFormat (value : Bytes) : Except UsageError Format :=
  if value.isEmpty then .error (.missingValue .outputFormat)
  else
    match (Utf8.decode? value).bind Format.ofName? with
    | some f => .ok f
    | none => .error (.unknownFormat (Utf8.lossy value))

/-- A second use is refused whatever its value. -/
def set (g : Given) (setting : Setting) (value : Bytes) : Except UsageError Given :=
  if g.has setting then .error (.repeated setting.label)
  else
    match setting with
    | .root => do return { g with root := some (← storePath .root value) }
    | .outputName => do return { g with outputName := some (← asText value) }
    | .config => do return { g with config := some (← storePath .config value) }
    | .maxDepth => do return { g with maxDepth := some (← readDepth value) }
    | .outputFormat => do return { g with format := some (← readFormat value) }

def setExtension (g : Given) (value : Bytes) : Except UsageError Given := do
  let s ← asText value
  match Extension.normalize s with
  | .ok extension => .ok { g with extension := some extension }
  | .error e => .error (.invalidValue s positionalLabel e.message)

def once (already : Bool) (switch : Switch) (g : Given) : Except UsageError Given :=
  if already then .error (.repeated switch.label) else .ok g

/-- Verbosity counts up to 255; every other switch may occur once. -/
def turnOn (g : Given) (switch : Switch) (long : Bool) : Except UsageError Given :=
  match switch with
  | .includeHidden => once g.includeHidden switch { g with includeHidden := true }
  | .followLinks => once g.followLinks switch { g with followLinks := true }
  | .dryRun => once g.dryRun switch { g with dryRun := true }
  | .quiet => once g.quiet switch { g with quiet := true, verboseLast := false }
  | .verbose => .ok { g with verbosity := min 255 (g.verbosity + 1), verboseLast := true }
  | .help => .error (.help long)
  | .version => .error .version

/-- The checks that wait for the end of the arguments. -/
def finish (g : Given) : Except UsageError Arguments :=
  if g = nothing then .error .nothingGiven
  else if g.quiet ∧ 0 < g.verbosity then
    .error (if g.verboseLast then .conflict .quiet .verbose else .conflict .verbose .quiet)
  else
    match g.extension with
    | none => .error .missingExtension
    | some extension => .ok {
        extension
        root := g.root
        outputName := g.outputName
        config := g.config
        includeHidden := g.includeHidden
        followLinks := g.followLinks
        maxDepth := g.maxDepth
        format := g.format.getD .human
        verbosity := g.verbosity
        quiet := g.quiet
        dryRun := g.dryRun }

end Given

end Collate
