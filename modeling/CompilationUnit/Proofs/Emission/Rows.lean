import CompilationUnit.Emission.Function
import CompilationUnit.Proofs.Emission.Writing

/-! The rows of a printed body: how deep each stands, its fixed text and the expressions in it, in their
places. Emitting a definition writes its rows and nothing else. -/
namespace CompilationUnit

inductive Piece where
  | text (s : String)
  | expr (e : Expr)

@[simp]
def Piece.print : Piece → String
  | .text s => s
  | .expr e => e.text

@[simp]
def printed : List Piece → String
  | [] => ""
  | piece :: pieces => piece.print ++ printed pieces

structure Row where
  depth : Nat
  pieces : List Piece

mutual

def Stmt.rows (depth : Nat) : Stmt → List Row
  | .block body => ⟨depth, [.text "\x7b"]⟩ :: (rowsOf (depth + 1) body ++ [⟨depth, [.text "\x7d"]⟩])
  | .declare type target none =>
    [⟨depth, [.text type.declarationText, .text " ", .expr target, .text ";"]⟩]
  | .declare type target (some value) =>
    [⟨depth, [.text type.declarationText, .text " ", .expr target, .text " = ", .expr value,
      .text ";"]⟩]
  | .assign target op value =>
    [⟨depth, [.expr target, .text " ", .text (assignmentSign op), .text " ", .expr value,
      .text ";"]⟩]
  | .expr value => [⟨depth, [.expr value, .text ";"]⟩]
  | .ret value => [⟨depth, [.text "return ", .expr value, .text ";"]⟩]
  | .branch cond negated onTrue onFalse =>
    ⟨depth, [.text (branchWord negated), .text " (", .expr cond, .text ") \x7b"]⟩ ::
      (rowsOf (depth + 1) onTrue ++ (otherwiseRows depth onFalse ++ [⟨depth, [.text "\x7d"]⟩]))
  | .repeatTimes count body =>
    ⟨depth, [.text "repeat (", .expr count, .text ")", .text " \x7b"]⟩ ::
      (rowsOf (depth + 1) body ++ [⟨depth, [.text "\x7d"]⟩])
  | .whileTrue cond body =>
    ⟨depth, [.text "while (", .expr cond, .text ")", .text " \x7b"]⟩ ::
      (rowsOf (depth + 1) body ++ [⟨depth, [.text "\x7d"]⟩])
  | .doUntil body cond =>
    ⟨depth, [.text "do", .text " \x7b"]⟩ ::
      (rowsOf (depth + 1) body ++
        [⟨depth, [.text "\x7d", .text " until (", .expr cond, .text ");"]⟩])
  | .tryCatch body caught handler =>
    ⟨depth, [.text "try \x7b"]⟩ ::
      (rowsOf (depth + 1) body ++
        (⟨depth, [.text "\x7d catch (", .text (commaSeparated caught), .text ") \x7b"]⟩ ::
          (rowsOf (depth + 1) handler ++ [⟨depth, [.text "\x7d"]⟩])))

def rowsOf (depth : Nat) : List Stmt → List Row
  | [] => []
  | s :: ss => s.rows depth ++ rowsOf depth ss

def otherwiseRows (depth : Nat) : Option (List Stmt) → List Row
  | none => []
  | some body => ⟨depth, [.text "\x7d else \x7b"]⟩ :: rowsOf (depth + 1) body

end

def Definition.rows (d : Definition) : List Row :=
  ⟨0, [.text d.signature, .text " \x7b"]⟩ :: (rowsOf 1 d.body ++ [⟨0, [.text "\x7d"]⟩])

def Context.deepen (c : Context) (depth : Nat) : Context := { c with level := c.level + depth }

def Row.texts (c : Context) (row : Row) : List String :=
  [(c.deepen row.depth).indentation, printed row.pieces, "\n"]

def rowTexts (c : Context) (rows : List Row) : List String := rows.flatMap (Row.texts c)

variable {σ : Type} [Destination σ]

namespace Emit

variable {c : Context} {depth : Nat} {rows others : List Row} {a next : Emit σ Unit}

theorem writesRow (c : Context) (depth : Nat) {pieces : List Piece} {text : String}
    (same : text = printed pieces) :
    Writes (line text : Emit σ Unit) (c.deepen depth) (rowTexts c [⟨depth, pieces⟩]) := by
  rw [same]
  exact writesLine _ _

theorem writesRows (first : Writes a (c.deepen depth) (rowTexts c rows))
    (second : Writes next (c.deepen depth) (rowTexts c others)) :
    Writes (a >>= fun _ => next) (c.deepen depth) (rowTexts c (rows ++ others)) := by
  rw [rowTexts, List.flatMap_append]
  exact writesThen first second

theorem writesBody {pieces : List Piece} {text : String} (same : text = printed pieces)
    (body : Writes a (c.deepen (depth + 1)) (rowTexts c rows))
    (later : Writes next (c.deepen depth) (rowTexts c others)) :
    Writes (line text >>= fun _ => indented a >>= fun _ => next) (c.deepen depth)
      (rowTexts c (⟨depth, pieces⟩ :: (rows ++ others))) :=
  writesRows (writesRow c depth same) (writesRows (writesIndented body) later)

theorem writesDeclaration (type : ValueType) (target : Expr) (value : Option Expr) (c : Context)
    (depth : Nat) : Writes (line (declarationLine type target value) : Emit σ Unit) (c.deepen depth)
      (rowTexts c ((Stmt.declare type target value).rows depth)) := by
  cases value <;> exact writesRow c depth (by simp [declarationLine, String.append_assoc])

end Emit

open Emit

mutual

theorem Stmt.writes (c : Context) (depth : Nat) : (s : Stmt) →
    Writes (s.emit : Emit σ Unit) (c.deepen depth) (rowTexts c (s.rows depth))
  | .block body => writesBody (by simp) (stmtsWrite c (depth + 1) body) (writesRow c depth (by simp))
  | .declare type target value => writesDeclaration type target value c depth
  | .assign target op value =>
    writesRow c depth (by simp [assignmentLine, String.append_assoc])
  | .expr value => writesRow c depth (by simp)
  | .ret value => writesRow c depth (by simp [String.append_assoc])
  | .branch cond negated onTrue onFalse =>
    writesBody (by simp [String.append_assoc]) (stmtsWrite c (depth + 1) onTrue)
      (writesRows (otherwiseWrites c depth onFalse) (writesRow c depth (by simp)))
  | .repeatTimes count body =>
    writesBody (by simp [String.append_assoc]) (stmtsWrite c (depth + 1) body)
      (writesRow c depth (by simp))
  | .whileTrue cond body =>
    writesBody (by simp [String.append_assoc]) (stmtsWrite c (depth + 1) body)
      (writesRow c depth (by simp))
  | .doUntil body cond =>
    writesBody (by simp) (stmtsWrite c (depth + 1) body)
      (writesRow c depth (by simp [String.append_assoc]))
  | .tryCatch body caught handler =>
    writesBody (by simp) (stmtsWrite c (depth + 1) body)
      (writesBody (by simp [String.append_assoc])
        (stmtsWrite c (depth + 1) handler) (writesRow c depth (by simp)))

theorem stmtsWrite (c : Context) (depth : Nat) : (ss : List Stmt) →
    Writes (emitStmts ss : Emit σ Unit) (c.deepen depth) (rowTexts c (rowsOf depth ss))
  | [] => writesNothing _
  | s :: ss => writesRows (s.writes c depth) (stmtsWrite c depth ss)

theorem otherwiseWrites (c : Context) (depth : Nat) : (onFalse : Option (List Stmt)) →
    Writes (emitOtherwise onFalse : Emit σ Unit) (c.deepen depth)
      (rowTexts c (otherwiseRows depth onFalse))
  | none => writesNothing _
  | some body => writesRows (writesRow c depth (by simp)) (writesIndented (stmtsWrite c (depth + 1) body))

end

theorem Definition.writes (c : Context) (d : Definition) :
    Writes (d.emit : Emit σ Unit) c (rowTexts c d.rows) :=
  writesBody (by simp) (stmtsWrite c 1 d.body) (writesRow c 0 (by simp))

end CompilationUnit
