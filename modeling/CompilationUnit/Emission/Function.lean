import CompilationUnit.Code.Text
import CompilationUnit.Emission.Context
import CompilationUnit.Registry

/-!
Emission of single functions: statements line by line, an assembly function as its one line, and a
placeholder as nothing or a comment.
-/
namespace CompilationUnit

variable {σ : Type} [Destination σ]

def ValueType.declarationText : ValueType → String
  | .hole => "var"
  | type => type.text

def assignmentSign : Option BinaryOp → String
  | none => "="
  | some op => op.sign ++ "="

def declarationLine (type : ValueType) (target : Expr) (value : Option Expr) : String :=
  match value with
  | none => type.declarationText ++ " " ++ target.text ++ ";"
  | some value => type.declarationText ++ " " ++ target.text ++ " = " ++ value.text ++ ";"

def assignmentLine (target : Expr) (op : Option BinaryOp) (value : Expr) : String :=
  target.text ++ " " ++ assignmentSign op ++ " " ++ value.text ++ ";"

def branchWord (negated : Bool) : String := if negated then "ifnot" else "if"

mutual

def Stmt.emit : Stmt → Emit σ Unit
  | .block body => do
    Emit.line "\x7b"
    Emit.indented (emitStmts body)
    Emit.line "\x7d"
  | .declare type target value => Emit.line (declarationLine type target value)
  | .assign target op value => Emit.line (assignmentLine target op value)
  | .expr value => Emit.line (value.text ++ ";")
  | .ret value => Emit.line ("return " ++ value.text ++ ";")
  | .branch cond negated onTrue onFalse => do
    Emit.line (branchWord negated ++ " (" ++ cond.text ++ ") \x7b")
    Emit.indented (emitStmts onTrue)
    emitOtherwise onFalse
    Emit.line "\x7d"
  | .repeatTimes count body => Emit.block ("repeat (" ++ count.text ++ ")") "" (emitStmts body)
  | .whileTrue cond body => Emit.block ("while (" ++ cond.text ++ ")") "" (emitStmts body)
  | .doUntil body cond => Emit.block "do" (" until (" ++ cond.text ++ ");") (emitStmts body)
  | .tryCatch body caught handler => do
    Emit.line "try \x7b"
    Emit.indented (emitStmts body)
    Emit.line ("\x7d catch (" ++ commaSeparated caught ++ ") \x7b")
    Emit.indented (emitStmts handler)
    Emit.line "\x7d"

def emitStmts : List Stmt → Emit σ Unit
  | [] => pure ()
  | s :: ss => do
    s.emit
    emitStmts ss

def emitOtherwise : Option (List Stmt) → Emit σ Unit
  | none => pure ()
  | some body => do
    Emit.line "\x7d else \x7b"
    Emit.indented (emitStmts body)

end

def Definition.emit (d : Definition) : Emit σ Unit := Emit.block d.signature "" (emitStmts d.body)

def Entry.emit (annotatePlaceholders : Bool) (e : Entry) : Emit σ Unit :=
  match e.body with
  | .ordinary definition => definition.emit
  | .asm definition => Emit.line definition.text
  | .placeholder =>
    if annotatePlaceholders then Emit.comment ("placeholder: " ++ e.name) else pure ()

def Entry.emitText (annotatePlaceholders : Bool) (e : Entry) (context : Context) :
    Except EmitError Unit × Emitting String :=
  (e.emit annotatePlaceholders).run ⟨"", context⟩

end CompilationUnit
