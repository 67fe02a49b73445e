import CompilationUnit.Emission.Function
import CompilationUnit.Emission.Record
import CompilationUnit.Emission.Section

/-!
Emission of an extracted unit: the functions in order, flat or by section, in pieces with one blank
line between them. Grouped, every function is declared before the first body, because sections may
put a caller before what it calls.
-/
namespace CompilationUnit

structure Emission where
  functions : List Entry
  config : Config
  deriving DecidableEq, Repr

inductive OutputFormat
  | text
  | json
  deriving DecidableEq, Repr

namespace Emission

variable {σ : Type} [Destination σ]

def sections (m : Emission) : List Section := sectionsOf m.functions

/-- Whether a function stands among the bodies; grouped, an assembly function is its own
declaration. -/
def isVisible (m : Emission) (e : Entry) : Bool :=
  match e.kind with
  | .ordinary => true
  | .asm => !m.config.groupByPlacement
  | .placeholder => m.config.annotatePlaceholders

def declaration? (e : Entry) : Option String :=
  match e.body with
  | .ordinary definition => some (definition.signature ++ ";")
  | .asm definition => some definition.text
  | .placeholder => none

def declarations (m : Emission) : List String := m.functions.filterMap declaration?

def emitVisible (m : Emission) (functions : List Entry) : List (Emit σ Unit) :=
  (functions.filter m.isVisible).map fun e => e.emit m.config.annotatePlaceholders

def emitDeclarations (m : Emission) : List (Emit σ Unit) :=
  if m.declarations.isEmpty then []
  else [do
    Emit.header "declarations"
    m.declarations.forM fun d => Emit.line d]

def emitSection (m : Emission) (s : Section) : List (Emit σ Unit) :=
  if s.functions.any m.isVisible then Emit.header s.title :: m.emitVisible s.functions else []

def entryPoints (m : Emission) : List String :=
  (m.functions.filter Entry.isEntryPoint).map Entry.name

def emitEntryPoints (m : Emission) : List (Emit σ Unit) :=
  if m.config.listEntryPoints ∧ ¬ m.entryPoints.isEmpty then
    [do
      Emit.header "entry points"
      m.entryPoints.forM fun name => Emit.comment name]
  else []

def emitFunctions (m : Emission) : List (Emit σ Unit) :=
  if m.config.groupByPlacement then m.emitDeclarations ++ m.sections.flatMap m.emitSection
  else m.emitVisible m.functions

def emit (m : Emission) : Emit σ Unit := Emit.separated (m.emitFunctions ++ m.emitEntryPoints)

def emitTo (m : Emission) (sink : σ) (colorsForced : Bool) : Except EmitError Unit × σ :=
  let (result, final) := m.emit.run ⟨sink, .ofConfig m.config colorsForced⟩
  (result, final.sink)

def text (m : Emission) (colorsForced : Bool) : Except EmitError String :=
  let (result, text) := m.emitTo "" colorsForced
  result.map fun _ => text

def render (m : Emission) (format : OutputFormat) (colorsForced : Bool) :
    Except EmitError String :=
  match format with
  | .text => m.text colorsForced
  | .json => .ok (recordsText m.functions)

end Emission

end CompilationUnit
