import Collate.Log.Directive

/-!
Which records are written. A filter is a list of directives; of those that fit a record the most specific
one decides, and a record that none fits is not written.
-/
namespace Collate

/-- Directives, the most specific first. -/
abbrev LogFilter := List Directive

namespace LogFilter

def allows (f : LogFilter) (r : Record) : Bool :=
  match f.find? (·.fits r) with
  | some d => r.level.rank ≤ d.rank
  | none => false

def errorsOnly : LogFilter :=
  [⟨none, none, 1⟩]

def ofDirectives (ds : List (Option Directive)) : LogFilter :=
  ds.foldl (fun f d => match d with
    | some d => Directive.insert d f
    | none => f) []

/-- The filter a text describes: directives between commas, where nothing at all stands for the error
level. A single mistake makes it none. -/
def read? (s : String) : Option LogFilter :=
  match (parts (· == ',') s.toList).filter (!·.isEmpty) with
  | [] => some errorsOnly
  | texts => (texts.mapM Directive.read).map ofDirectives

/-- Without a filter of the user's the switches decide. -/
def ofSwitches (verbosity : Nat) (quiet : Bool) : LogFilter :=
  let rank := if quiet then 1 else min Directive.talkative (verbosity + 2)
  [⟨some "concat", none, rank⟩]

def choose (text : Option String) (verbosity : Nat) (quiet : Bool) : LogFilter :=
  (text.bind read?).getD (ofSwitches verbosity quiet)

end LogFilter

end Collate
