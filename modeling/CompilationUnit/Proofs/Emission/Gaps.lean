import CompilationUnit.Proofs.Emission.Grouping

/-! Blank lines set by a flag. An emission that keeps track of whether anything has been written, and puts a
blank line before an item if so, writes what it would write if it had collected all items first. -/
namespace CompilationUnit

variable {σ : Type} [Destination σ]

abbrev Gapped (σ α : Type) := StateT Bool (Emit σ) α

namespace Gapped

def gap : Gapped σ Unit := do
  if ← get then (Emit.blankLine : Emit σ Unit)
  set true

def item (piece : Emit σ Unit) : Gapped σ Unit := do
  gap
  piece

end Gapped

namespace Emission

def gappedFunction (m : Emission) (e : Entry) : Gapped σ Unit :=
  if m.isVisible e then Gapped.item (e.emit m.config.annotatePlaceholders) else pure ()

def gappedDeclarations (m : Emission) : Gapped σ Unit :=
  if m.declarations.isEmpty then pure ()
  else Gapped.item do
    Emit.header "declarations"
    m.declarations.forM fun d => Emit.line d

def gappedSection (m : Emission) (s : Section) : Gapped σ Unit :=
  if s.functions.any m.isVisible then do
    Gapped.item (Emit.header s.title)
    s.functions.forM m.gappedFunction
  else pure ()

def gappedEntryPoints (m : Emission) : Gapped σ Unit :=
  if m.config.listEntryPoints ∧ ¬ m.entryPoints.isEmpty then
    Gapped.item do
      Emit.header "entry points"
      m.entryPoints.forM fun name => Emit.comment name
  else pure ()

def gappedFunctions (m : Emission) : Gapped σ Unit :=
  if m.config.groupByPlacement then do
    m.gappedDeclarations
    m.sections.forM m.gappedSection
  else m.functions.forM m.gappedFunction

def emitGapped (m : Emission) : Gapped σ Unit := do
  m.gappedFunctions
  m.gappedEntryPoints

end Emission

namespace Emit

def behind (started : Bool) : List (Emit σ Unit) → Emit σ Unit
  | [] => pure ()
  | piece :: pieces => do
    if started then blankLine
    piece
    behind true pieces

theorem behindTrue (pieces : List (Emit σ Unit)) :
    behind true pieces = pieces.forM fun piece => blankLine >>= fun _ => piece := by
  induction pieces with
  | nil => rfl
  | cons piece pieces ih => simp [behind, ih]

theorem behindSeparated (pieces : List (Emit σ Unit)) : behind false pieces = separated pieces := by
  cases pieces with
  | nil => rfl
  | cons piece pieces => simp [behind, separated, behindTrue]

theorem behindAppend (started : Bool) (pieces others : List (Emit σ Unit)) :
    behind started (pieces ++ others) =
      behind started pieces >>= fun _ => behind (started || !pieces.isEmpty) others := by
  induction pieces generalizing started with
  | nil => simp [behind]
  | cons piece pieces ih => cases started <;> simp [behind, ih]

end Emit

open Emit

namespace Gapped

/- An emission that adds some pieces as items, and knows afterwards whether there is one. -/
def Adds (a : Gapped σ Unit) (pieces : List (Emit σ Unit)) : Prop :=
  ∀ started, a.run started = behind started pieces >>= fun _ => pure ((), started || !pieces.isEmpty)

variable {a b : Gapped σ Unit} {pieces others : List (Emit σ Unit)}

theorem addsNothing : Adds (pure () : Gapped σ Unit) [] := by
  intro started
  simp [behind]

theorem addsItem (piece : Emit σ Unit) : Adds (item piece) [piece] := by
  intro started
  cases started <;> simp [item, gap, behind]

theorem addsThen (first : Adds a pieces) (second : Adds b others) :
    Adds (a >>= fun _ => b) (pieces ++ others) := by
  intro started
  have later := second (started || !pieces.isEmpty)
  have empty : (pieces ++ others).isEmpty = (pieces.isEmpty && others.isEmpty) := by cases pieces <;> rfl
  simp [first started, later, behindAppend, empty, Bool.or_assoc]

theorem addsAll {α : Type} {f : α → Gapped σ Unit} {added : α → List (Emit σ Unit)}
    (each : ∀ x, Adds (f x) (added x)) (items : List α) : Adds (items.forM f) (items.flatMap added) := by
  induction items with
  | nil => exact addsNothing
  | cons x items ih => exact addsThen (each x) ih

theorem addsIf {shown : Prop} [Decidable shown] (adds : Adds a pieces) :
    Adds (if shown then a else pure ()) (if shown then pieces else []) := by
  split
  · exact adds
  · exact addsNothing

end Gapped

open Gapped

namespace Emission

theorem functionAdds (m : Emission) (e : Entry) : Adds (m.gappedFunction e : Gapped σ Unit)
    (if m.isVisible e then [e.emit m.config.annotatePlaceholders] else []) :=
  addsIf (addsItem _)

theorem functionsAdd (m : Emission) (functions : List Entry) :
    Adds (functions.forM m.gappedFunction : Gapped σ Unit) (m.emitVisible functions) := by
  have visible : m.emitVisible functions = functions.flatMap fun e =>
      if m.isVisible e then [(e.emit m.config.annotatePlaceholders : Emit σ Unit)] else [] := by
    rw [emitVisible, List.map_eq_flatMap, flatMapFilter]
  rw [visible]
  exact addsAll m.functionAdds functions

theorem sectionAdds (m : Emission) (s : Section) :
    Adds (m.gappedSection s : Gapped σ Unit) (m.emitSection s) :=
  addsIf (addsThen (addsItem _) (m.functionsAdd s.functions))

theorem declarationsAdd (m : Emission) :
    Adds (m.gappedDeclarations : Gapped σ Unit) m.emitDeclarations := by
  unfold gappedDeclarations emitDeclarations
  split
  · exact addsNothing
  · exact addsItem _

theorem gappedAdds (m : Emission) :
    Adds (m.emitGapped : Gapped σ Unit) (m.emitFunctions ++ m.emitEntryPoints) := by
  have functions : Adds (m.gappedFunctions : Gapped σ Unit) m.emitFunctions := by
    unfold gappedFunctions emitFunctions
    split
    · exact addsThen m.declarationsAdd (addsAll m.sectionAdds m.sections)
    · exact m.functionsAdd m.functions
  exact addsThen functions (addsIf (addsItem _))

theorem gappedEmits (m : Emission) : (m.emitGapped : Gapped σ Unit).run' false = m.emit := by
  have adds := m.gappedAdds (σ := σ) false
  rw [StateT.run'_eq, adds, behindSeparated]
  simp [emit]

end Emission
end CompilationUnit
