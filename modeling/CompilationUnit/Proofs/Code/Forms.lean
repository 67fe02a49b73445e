import CompilationUnit.Code.Decoding
import CompilationUnit.Code.Equality
import CompilationUnit.Proofs.Json.Form

/-! Forms of code: its encoding, with a mark on every member that says no more than the reader supplies.
Written in full, a form is the encoding. -/
namespace CompilationUnit

open Json

def BinaryOp.form (op : BinaryOp) : Form := .plain op.encode

mutual

def Expr.form : Expr → Form
  | .id name => .variant "id" (.plain (.string name))
  | .int value => .variant "int" (.plain (.integer value.toInt))
  | .bool value => .variant "bool" (.plain (.boolean value))
  | .str value => .variant "str" (.plain (.string value))
  | .nil => .plain (.string "nil")
  | .hole => .plain (.string "hole")
  | .call callee args =>
    .variant "call" (.record [("fun", false, callee.form),
      ("args", args.isEmpty, .list (formExprs args))])
  | .method receiver name args modifying =>
    .variant "method_call" (.record [("receiver", false, receiver.form),
      ("method", false, .plain (.string name)), ("args", args.isEmpty, .list (formExprs args)),
      ("modifying", !modifying, .plain (.boolean modifying))])
  | .binary op left right =>
    .variant "binary" (.record [("op", false, op.form), ("lhs", false, left.form),
      ("rhs", false, right.form)])
  | .unary op operand =>
    .variant "unary" (.record [("op", false, .plain op.encode), ("operand", false, operand.form)])
  | .ternary cond onTrue onFalse =>
    .variant "ternary" (.record [("cond", false, cond.form), ("then", false, onTrue.form),
      ("otherwise", false, onFalse.form)])
  | .tensor items => .variant "tensor" (.list (formExprs items))
  | .tuple items => .variant "tuple" (.list (formExprs items))

def formExprs : List Expr → List Form
  | [] => []
  | e :: es => e.form :: formExprs es

end

mutual

def Stmt.form : Stmt → Form
  | .block body => .variant "block" (.list (formStmts body))
  | .declare type target value =>
    .variant "let" (.record [("ty", decide (type = .hole), .plain type.encode),
      ("target", false, target.form), ("value", value.isNone, formOption Expr.form value)])
  | .assign target op value =>
    .variant "assign" (.record [("target", false, target.form),
      ("op", op.isNone, formOption BinaryOp.form op), ("value", false, value.form)])
  | .expr value => .variant "expr" value.form
  | .ret value => .variant "return" value.form
  | .branch cond negated onTrue onFalse =>
    .variant "if" (.record [("cond", false, cond.form), ("negated", !negated, .plain (.boolean negated)),
      ("then", false, .list (formStmts onTrue)), ("otherwise", onFalse.isNone, formOtherwise onFalse)])
  | .repeatTimes count body =>
    .variant "repeat" (.record [("count", false, count.form), ("body", false, .list (formStmts body))])
  | .whileTrue cond body =>
    .variant "while" (.record [("cond", false, cond.form), ("body", false, .list (formStmts body))])
  | .doUntil body cond =>
    .variant "do_until" (.record [("body", false, .list (formStmts body)), ("cond", false, cond.form)])
  | .tryCatch body caught handler =>
    .variant "try_catch" (.record [("body", false, .list (formStmts body)),
      ("catch_vars", caught.isEmpty, .plain (.names caught)), ("handler", false, .list (formStmts handler))])

def formStmts : List Stmt → List Form
  | [] => []
  | s :: ss => s.form :: formStmts ss

def formOtherwise : Option (List Stmt) → Form
  | none => .plain .null
  | some body => .list (formStmts body)

end

def Parameter.form (p : Parameter) : Form :=
  .record [("name", false, .plain (.string p.name)), ("ty", decide (p.type = .hole), .plain p.type.encode)]

def Definition.form (d : Definition) : Form :=
  .record [("attrs", d.attributes.isEmpty, .plain (.ofList Attribute.encode d.attributes)),
    ("name", false, .plain (.string d.name)), ("params", d.params.isEmpty, formList Parameter.form d.params),
    ("return_ty", decide (d.returnType = .hole), .plain d.returnType.encode),
    ("body", d.body.isEmpty, .list (formStmts d.body))]

def AsmDefinition.form (d : AsmDefinition) : Form :=
  .record [("attrs", d.attributes.isEmpty, .plain (.ofList Attribute.encode d.attributes)),
    ("name", false, .plain (.string d.name)), ("params", d.params.isEmpty, formList Parameter.form d.params),
    ("return_ty", decide (d.returnType = .hole), .plain d.returnType.encode),
    ("asm", false, .plain (.string d.code))]

theorem operatorFull (op : BinaryOp) : op.form.full = op.encode := rfl

mutual

theorem exprFull : (e : Expr) → e.form.full = e.encode
  | .id _ => rfl
  | .int _ => rfl
  | .bool _ => rfl
  | .str _ => rfl
  | .nil => rfl
  | .hole => rfl
  | .call callee args => by
    rw [Expr.form, Expr.encode, ← exprFull callee, ← exprsFull args]
    simp only [Form.full, Form.write, fullRecord]
    rfl
  | .method receiver name args modifying => by
    rw [Expr.form, Expr.encode, ← exprFull receiver, ← exprsFull args]
    simp only [Form.full, Form.write, fullRecord]
    rfl
  | .binary op left right => by
    rw [Expr.form, Expr.encode, ← exprFull left, ← exprFull right]
    rfl
  | .unary op operand => by
    rw [Expr.form, Expr.encode, ← exprFull operand]
    rfl
  | .ternary cond onTrue onFalse => by
    rw [Expr.form, Expr.encode, ← exprFull cond, ← exprFull onTrue, ← exprFull onFalse]
    rfl
  | .tensor items => by
    rw [Expr.form, Expr.encode, ← exprsFull items]
    rfl
  | .tuple items => by
    rw [Expr.form, Expr.encode, ← exprsFull items]
    rfl

theorem exprsFull : (es : List Expr) → writeItems true (formExprs es) = encodeExprs es
  | [] => rfl
  | e :: es => by
    rw [formExprs, encodeExprs, ← exprFull e, ← exprsFull es]
    rfl

end

mutual

theorem stmtFull : (s : Stmt) → s.form.full = s.encode
  | .block body => by
    rw [Stmt.form, Stmt.encode, ← stmtsFull body]
    rfl
  | .declare type target value => by
    rw [Stmt.form, Stmt.encode, ← exprFull target, ← optionFull exprFull value]
    simp only [Form.full, Form.write, fullRecord]
    rfl
  | .assign target op value => by
    rw [Stmt.form, Stmt.encode, ← exprFull target, ← exprFull value, ← optionFull operatorFull op]
    simp only [Form.full, Form.write, fullRecord]
    rfl
  | .expr value => by
    rw [Stmt.form, Stmt.encode, ← exprFull value]
    rfl
  | .ret value => by
    rw [Stmt.form, Stmt.encode, ← exprFull value]
    rfl
  | .branch cond negated onTrue onFalse => by
    rw [Stmt.form, Stmt.encode, ← exprFull cond, ← stmtsFull onTrue, ← otherwiseFull onFalse]
    simp only [Form.full, Form.write, fullRecord]
    rfl
  | .repeatTimes count body => by
    rw [Stmt.form, Stmt.encode, ← exprFull count, ← stmtsFull body]
    rfl
  | .whileTrue cond body => by
    rw [Stmt.form, Stmt.encode, ← exprFull cond, ← stmtsFull body]
    rfl
  | .doUntil body cond => by
    rw [Stmt.form, Stmt.encode, ← stmtsFull body, ← exprFull cond]
    rfl
  | .tryCatch body caught handler => by
    rw [Stmt.form, Stmt.encode, ← stmtsFull body, ← stmtsFull handler]
    simp only [Form.full, Form.write, fullRecord]
    rfl

theorem stmtsFull : (ss : List Stmt) → writeItems true (formStmts ss) = encodeStmts ss
  | [] => rfl
  | s :: ss => by
    rw [formStmts, encodeStmts, ← stmtFull s, ← stmtsFull ss]
    rfl

theorem otherwiseFull : (body : Option (List Stmt)) → (formOtherwise body).full = encodeOtherwise body
  | none => rfl
  | some body => by
    rw [formOtherwise, encodeOtherwise, ← stmtsFull body]
    rfl

end

theorem parameterFull (p : Parameter) : p.form.full = p.encode := by
  rw [Parameter.form, Form.full, Form.write, fullRecord]
  rfl

theorem definitionFull (d : Definition) : d.form.full = d.encode := by
  rw [Definition.form, Definition.encode, Form.full, Form.write, fullRecord, ← stmtsFull,
    ← listFull parameterFull]
  rfl

theorem asmDefinitionFull (d : AsmDefinition) : d.form.full = d.encode := by
  rw [AsmDefinition.form, AsmDefinition.encode, Form.full, Form.write, fullRecord,
    ← listFull parameterFull]
  rfl

end CompilationUnit
