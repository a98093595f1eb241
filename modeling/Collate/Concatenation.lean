import Collate.Block
import Collate.Event
import Collate.Sink

/-!
Writing the blocks of a list of sources into one output. Each source is read when its turn comes; the
first one that cannot be read ends the run, and the blocks before it stay in the output.
-/
namespace Collate

structure Concatenation where
  fileSystem : FileSystem
  result : Except Failure Progress
  /-- The progress before each source, and at the end. -/
  seen : List Progress
  events : List Event

namespace Concatenation

def failed (fs : FileSystem) (f : Failure) (seen : List Progress) : Concatenation :=
  ⟨fs, .error f, seen, []⟩

/-- What was held back is still written when a run ends early, whether or not that succeeds. -/
def abandoned (fs : FileSystem) (sink : Sink) (f : Failure) (p : Progress) : Concatenation :=
  failed (sink.flush fs).1 f [p]

def writeFrom (output : Path) : FileSystem → Sink → Progress → List Source → Concatenation
  | fs, sink, p, [] =>
    match sink.flush fs with
    | (fs, _, none) => ⟨fs, .ok p, [p], []⟩
    | (fs, _, some refusal) => failed fs (.unwritable output (.refused refusal)) []
  | fs, sink, p, source :: rest =>
    match fs.readText source.path with
    | .error fault => abandoned fs sink (.ofRead source.path fault) p
    | .ok contents =>
      let block : Block := ⟨source.display, contents⟩
      match sink.pushAll fs block.pieces with
      | (fs, sink, some refusal) =>
        abandoned fs sink (.unwritable output (.refused refusal)) p
      | (fs, sink, none) =>
        let after := writeFrom output fs sink (p.advance block.header block.size) rest
        { after with
          seen := p :: after.seen
          events := .blockAppended block.header block.size :: after.events }

/-- Makes or empties the output, then writes one block per source. -/
def write (fs : FileSystem) (output : Path) (buffer : Option Nat) (sources : List Source) :
    Concatenation :=
  match fs.create output with
  | .error fault => failed fs (.unwritable output fault) []
  | .ok (fs, handle) =>
    writeFrom output fs ⟨handle, Sink.capacityFor buffer, []⟩ (Progress.start sources.length)
      sources

end Concatenation

end Collate
