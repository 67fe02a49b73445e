import CompilationUnit.Code.Traversal
import CompilationUnit.Proofs.Emission.Rows

/-! The printed text of a definition as a template that its expressions fill. The template is read off the
definition with its expressions taken out; what fills it are the expressions that a traversal meets
outside all others, in the order in which it meets them. -/
namespace CompilationUnit

mutual

def Stmt.erased : Stmt → Stmt
  | .block body => .block (erasedOf body)
  | .declare type _ value => .declare type .hole (value.map fun _ => .hole)
  | .assign _ op _ => .assign .hole op .hole
  | .expr _ => .expr .hole
  | .ret _ => .ret .hole
  | .branch _ negated onTrue onFalse =>
    .branch .hole negated (erasedOf onTrue) (erasedOtherwise onFalse)
  | .repeatTimes _ body => .repeatTimes .hole (erasedOf body)
  | .whileTrue _ body => .whileTrue .hole (erasedOf body)
  | .doUntil body _ => .doUntil (erasedOf body) .hole
  | .tryCatch body caught handler => .tryCatch (erasedOf body) caught (erasedOf handler)

def erasedOf : List Stmt → List Stmt
  | [] => []
  | s :: ss => s.erased :: erasedOf ss

def erasedOtherwise : Option (List Stmt) → Option (List Stmt)
  | none => none
  | some body => some (erasedOf body)

end

def Definition.erased (d : Definition) : Definition := { d with body := erasedOf d.body }

/-- Fixed texts with a place for an insertion between each and the next. -/
structure Template where
  first : String
  later : List String
  deriving DecidableEq, Repr

namespace Template

def fill (t : Template) (insertions : List String) : String :=
  t.first ++ String.join (List.zipWith (· ++ ·) insertions t.later)

def ofPieces : List Piece → Template
  | [] => ⟨"", []⟩
  | .text s :: pieces =>
    let rest := ofPieces pieces
    ⟨s ++ rest.first, rest.later⟩
  | .expr _ :: pieces =>
    let rest := ofPieces pieces
    ⟨"", rest.first :: rest.later⟩

end Template

@[simp]
def Piece.expr? : Piece → Option Expr
  | .text _ => none
  | .expr e => some e

@[simp]
def Piece.erased : Piece → Piece
  | .text s => .text s
  | .expr _ => .expr .hole

def Row.erased (row : Row) : Row := { row with pieces := row.pieces.map Piece.erased }

def Row.line (c : Context) (row : Row) : List Piece :=
  .text (c.deepen row.depth).indentation :: (row.pieces ++ [.text "\n"])

def Definition.pieces (c : Context) (d : Definition) : List Piece := d.rows.flatMap (Row.line c)

def Definition.template (c : Context) (d : Definition) : Template := .ofPieces (d.pieces c)

def insertions (rows : List Row) : List Expr :=
  rows.flatMap fun row => row.pieces.filterMap Piece.expr?

namespace Template

theorem ofPiecesFilled (pieces : List Piece) :
    (ofPieces pieces).fill ((pieces.filterMap Piece.expr?).map Expr.text) = printed pieces := by
  induction pieces with
  | nil => simp [ofPieces, fill]
  | cons piece pieces ih =>
    unfold fill at ih
    cases piece <;>
      simp [ofPieces, fill, List.filterMap_cons, ← ih, String.append_assoc]

theorem ofPiecesPlaces (pieces : List Piece) :
    (ofPieces pieces).later.length = (pieces.filterMap Piece.expr?).length := by
  induction pieces with
  | nil => rfl
  | cons piece pieces ih => cases piece <;> simp [ofPieces, List.filterMap_cons, ih]

theorem ofPiecesErased (pieces : List Piece) :
    ofPieces (pieces.map Piece.erased) = ofPieces pieces := by
  induction pieces with
  | nil => rfl
  | cons piece pieces ih => cases piece <;> simp [ofPieces, ih]

end Template

theorem printedAppend (pieces others : List Piece) :
    printed (pieces ++ others) = printed pieces ++ printed others := by
  induction pieces with
  | nil => simp
  | cons piece pieces ih => simp [ih, String.append_assoc]

theorem printedLines (c : Context) (rows : List Row) :
    printed (rows.flatMap (Row.line c)) = String.join (rowTexts c rows) := by
  induction rows with
  | nil => rfl
  | cons row rows ih =>
    rw [rowTexts] at ih
    simp [rowTexts, Row.line, Row.texts, printedAppend, ih]

theorem lineInsertions (c : Context) (rows : List Row) :
    (rows.flatMap (Row.line c)).filterMap Piece.expr? = insertions rows := by
  induction rows with
  | nil => rfl
  | cons row rows ih =>
    rw [insertions] at ih
    simp [insertions, Row.line, List.filterMap_cons, ih]

theorem linesErased (c : Context) (rows : List Row) :
    (rows.map Row.erased).flatMap (Row.line c) = (rows.flatMap (Row.line c)).map Piece.erased := by
  induction rows with
  | nil => rfl
  | cons row rows ih => simp [Row.erased, Row.line, ih]

mutual

theorem Stmt.rowsErased (depth : Nat) : (s : Stmt) → s.erased.rows depth = (s.rows depth).map Row.erased
  | .block body => by simp [Stmt.erased, Stmt.rows, Row.erased, rowsOfErased _ body]
  | .declare type target none => rfl
  | .declare type target (some value) => rfl
  | .assign target op value => rfl
  | .expr value => rfl
  | .ret value => rfl
  | .branch cond negated onTrue onFalse => by
    simp [Stmt.erased, Stmt.rows, Row.erased, rowsOfErased _ onTrue,
      otherwiseErased depth onFalse]
  | .repeatTimes count body => by
    simp [Stmt.erased, Stmt.rows, Row.erased, rowsOfErased _ body]
  | .whileTrue cond body => by
    simp [Stmt.erased, Stmt.rows, Row.erased, rowsOfErased _ body]
  | .doUntil body cond => by
    simp [Stmt.erased, Stmt.rows, Row.erased, rowsOfErased _ body]
  | .tryCatch body caught handler => by
    simp [Stmt.erased, Stmt.rows, Row.erased, rowsOfErased _ body,
      rowsOfErased _ handler]

theorem rowsOfErased (depth : Nat) : (ss : List Stmt) →
    rowsOf depth (erasedOf ss) = (rowsOf depth ss).map Row.erased
  | [] => rfl
  | s :: ss => by simp [erasedOf, rowsOf, s.rowsErased depth, rowsOfErased depth ss]

theorem otherwiseErased (depth : Nat) : (onFalse : Option (List Stmt)) →
    otherwiseRows depth (erasedOtherwise onFalse) = (otherwiseRows depth onFalse).map Row.erased
  | none => rfl
  | some body => by
    simp [erasedOtherwise, otherwiseRows, Row.erased, rowsOfErased _ body]

end

@[simp]
theorem insertionsNil : insertions [] = [] := rfl

@[simp]
theorem insertionsCons (row : Row) (rows : List Row) :
    insertions (row :: rows) = row.pieces.filterMap Piece.expr? ++ insertions rows := rfl

@[simp]
theorem insertionsAppend (rows others : List Row) :
    insertions (rows ++ others) = insertions rows ++ insertions others :=
  List.flatMap_append

mutual

theorem Stmt.rowsVisited (depth : Nat) : (s : Stmt) →
    insertions (s.rows depth) = s.visits.filterMap Visit.expr?
  | .block body => by
    simp [Stmt.rows, Stmt.visits, List.filterMap_cons, Visit.expr?,
      rowsOfVisited (depth + 1) body]
  | .declare type target none => rfl
  | .declare type target (some value) => rfl
  | .assign target op value => rfl
  | .expr value => rfl
  | .ret value => rfl
  | .branch cond negated onTrue none => by
    simp [Stmt.rows, otherwiseRows, Stmt.visits, List.filterMap_cons, Visit.expr?,
      rowsOfVisited (depth + 1) onTrue]
  | .branch cond negated onTrue (some onFalse) => by
    simp [Stmt.rows, otherwiseRows, Stmt.visits, List.filterMap_cons, Visit.expr?,
      rowsOfVisited (depth + 1) onTrue, rowsOfVisited (depth + 1) onFalse]
  | .repeatTimes count body => by
    simp [Stmt.rows, Stmt.visits, List.filterMap_cons, Visit.expr?,
      rowsOfVisited (depth + 1) body]
  | .whileTrue cond body => by
    simp [Stmt.rows, Stmt.visits, List.filterMap_cons, Visit.expr?,
      rowsOfVisited (depth + 1) body]
  | .doUntil body cond => by
    simp [Stmt.rows, Stmt.visits, List.filterMap_cons, Visit.expr?,
      rowsOfVisited (depth + 1) body]
  | .tryCatch body caught handler => by
    simp [Stmt.rows, Stmt.visits, List.filterMap_cons, Visit.expr?,
      rowsOfVisited (depth + 1) body, rowsOfVisited (depth + 1) handler]

theorem rowsOfVisited (depth : Nat) : (ss : List Stmt) →
    insertions (rowsOf depth ss) = (visitsOf ss).filterMap Visit.expr?
  | [] => rfl
  | s :: ss => by
    rw [rowsOf, visitsOf, insertionsAppend, s.rowsVisited depth, rowsOfVisited depth ss,
      List.filterMap_append]

end

namespace Definition

theorem rowsErased (d : Definition) : d.erased.rows = d.rows.map Row.erased := by
  have signature : d.erased.signature = d.signature := rfl
  have body : rowsOf 1 d.erased.body = (rowsOf 1 d.body).map Row.erased := rowsOfErased 1 d.body
  simp [Definition.rows, signature, body, Row.erased]

theorem rowsVisited (d : Definition) : insertions d.rows = d.outermost := by
  have body := rowsOfVisited 1 d.body
  simp [Definition.rows, List.filterMap_cons, body, Definition.outermost,
    Definition.visits]

theorem templateErased (c : Context) (d : Definition) : d.erased.template c = d.template c := by
  rw [Definition.template, Definition.pieces, d.rowsErased, linesErased, Template.ofPiecesErased]
  rfl

theorem templateFilled (c : Context) (d : Definition) :
    (d.template c).fill (d.outermost.map Expr.text) = String.join (rowTexts c d.rows) := by
  rw [← d.rowsVisited, ← lineInsertions c, ← printedLines]
  exact Template.ofPiecesFilled (d.pieces c)

theorem templatePlaces (c : Context) (d : Definition) :
    (d.template c).later.length = d.outermost.length := by
  rw [← d.rowsVisited, ← lineInsertions c]
  exact Template.ofPiecesPlaces (d.pieces c)

/-- The emitted text of a definition is the text of its outermost expressions, in the order in which a
traversal meets them, in the places of a template that depends on nothing in these expressions. -/
theorem emitsOutermost (c : Context) (d : Definition) (e : Entry) (annotatePlaceholders : Bool) :
    ({ e with body := .ordinary d } : Entry).emitText annotatePlaceholders c =
      (.ok (), ⟨(d.erased.template c).fill (d.outermost.map Expr.text), c⟩) ∧
    (d.erased.template c).later.length = d.outermost.length := by
  have written : (d.emit : Emit String Unit).run ⟨"", c⟩ =
      (.ok (), ⟨String.join (rowTexts c d.rows), c⟩) := by
    simpa using Emit.writesString (d.writes c) ""
  rw [d.templateErased c, d.templateFilled c]
  exact ⟨written, d.templatePlaces c⟩

end Definition

end CompilationUnit
