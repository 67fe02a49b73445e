import CompilationUnit.Emission.Config
import CompilationUnit.Emission.Destination
import CompilationUnit.Text.Colour

/-!
Writing lines at a level of indentation. An emission that fails stops at once; what it has written
and the level it had reached stay as they are.
-/
namespace CompilationUnit

structure Context where
  level : Nat
  indentText : String
  useColors : Bool
  colorsForced : Bool
  deriving DecidableEq, Repr

namespace Context

def default (colorsForced : Bool) : Context := ⟨0, "    ", false, colorsForced⟩

def ofConfig (config : Config) (colorsForced : Bool) : Context :=
  ⟨0, config.indentStyle.text, config.useColors, colorsForced⟩

def indent (c : Context) : Context := { c with level := c.level + 1 }

def dedent (c : Context) : Context := { c with level := c.level - 1 }

def indentation (c : Context) : String := String.join (List.replicate c.level c.indentText)

end Context

structure Emitting (σ : Type) where
  sink : σ
  context : Context

abbrev Emit (σ α : Type) := ExceptT EmitError (StateM (Emitting σ)) α

inductive LineColor
  | cyan
  | brightBlack
  | plain
  deriving DecidableEq, Repr

def LineColor.ofName : String → LineColor
  | "cyan" => .cyan
  | "bright_black" => .brightBlack
  | _ => .plain

def LineColor.paint : LineColor → String → String
  | .cyan, text => Text.Style.cyan.paint text
  | .brightBlack, text => Text.Style.brightBlack.paint text
  | .plain, text => text

namespace Emit

variable {σ : Type} [Destination σ]

def write (text : String) : Emit σ Unit := do
  let e ← get
  let (result, sink) := Destination.write e.sink text
  set { e with sink := sink }
  liftExcept result

def getContext : Emit σ Context := do
  let e ← get
  pure e.context

def indent : Emit σ Unit := modify fun e => { e with context := e.context.indent }

def dedent : Emit σ Unit := modify fun e => { e with context := e.context.dedent }

def blankLine : Emit σ Unit := write "\n"

def line (text : String) : Emit σ Unit := do
  let c ← getContext
  write c.indentation
  write text
  write "\n"

def coloredLine (color : LineColor) (text : String) : Emit σ Unit := do
  let c ← getContext
  if c.useColors ∧ c.colorsForced then line (color.paint text) else line text

def comment (text : String) : Emit σ Unit := coloredLine .brightBlack (";; " ++ text)

def header (title : String) : Emit σ Unit := coloredLine .cyan (";; === " ++ title ++ " ===")

def indented (body : Emit σ Unit) : Emit σ Unit := do
  indent
  body
  dedent

def block (header footer : String) (body : Emit σ Unit) : Emit σ Unit := do
  line (header ++ " \x7b")
  indented body
  line ("\x7d" ++ footer)

def separated : List (Emit σ Unit) → Emit σ Unit
  | [] => pure ()
  | first :: others => do
    first
    others.forM fun piece => do
      blankLine
      piece

end Emit

end CompilationUnit
