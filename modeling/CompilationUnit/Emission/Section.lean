import CompilationUnit.Registry

/-!
Sections of the output: the functions of one placement each, in emission order.
-/
namespace CompilationUnit

structure Section where
  placement : Option Placement
  functions : List Entry
  deriving DecidableEq, Repr

namespace Section

def title (s : Section) : String :=
  match s.placement with
  | some placement => placement.text
  | none => "unplaced"

def rank (s : Section) : Nat :=
  match s.placement with
  | some .stdlib => 0
  | some .constants => 1
  | some (.type _) => 2
  | none => 3

def place (sections : List Section) (e : Entry) : List Section :=
  match sections with
  | [] => [⟨e.placement, [e]⟩]
  | s :: others =>
    if s.placement = e.placement then { s with functions := s.functions ++ [e] } :: others
    else s :: place others e

def group (functions : List Entry) : List Section := functions.foldl place []

def arrange (sections : List Section) : List Section :=
  sections.mergeSort fun s t => s.rank ≤ t.rank

end Section

def sectionsOf (functions : List Entry) : List Section :=
  Section.arrange (Section.group functions)

end CompilationUnit
