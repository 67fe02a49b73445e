import CompilationUnit.EmissionOrder

/-!
Extraction: the functions of a unit that are written out, in order, with a report on what was left
out and what the order could not respect. Extracting changes no entry and closes the registry.
-/
namespace CompilationUnit

open Json (Value)

structure Report where
  pruned : List String
  dangling : List Edge
  backEdges : List Edge
  deriving DecidableEq, Repr

def Report.encode (r : Report) : Value :=
  .object [("pruned", .names r.pruned), ("dangling", .ofList Edge.encode r.dangling),
    ("back_edges", .ofList Edge.encode r.backEdges)]

structure Extraction where
  functions : List Entry
  report : Report
  deriving DecidableEq, Repr

def Extraction.names (e : Extraction) : List String := e.functions.map Entry.name

def Registry.extraction (r : Registry) : Extraction :=
  let reached := r.reachable
  let sequence := r.sequence reached.live.names
  { functions := sequence.order
    report :=
      { pruned := r.names.filter fun name => decide (name ∉ reached.live)
        dangling := reached.dangling
        backEdges := sequence.backEdges } }

def Registry.extract (r : Registry) : Registry × Extraction := (r.finalize, r.extraction)

end CompilationUnit
