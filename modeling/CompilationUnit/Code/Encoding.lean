import CompilationUnit.Code.Basic
import CompilationUnit.Json.Value

/-!
Code as JSON. A variant without data is its name, one with data an object with the name as its only
key; every field is written, also where a reader would supply it.
-/
namespace CompilationUnit

open Json (Value)

def variantValue (name : String) (content : Value) : Value := .object [(name, content)]

mutual

def ValueType.encode : ValueType → Value
  | .int => .string "int"
  | .cell => .string "cell"
  | .slice => .string "slice"
  | .builder => .string "builder"
  | .cont => .string "cont"
  | .tuple => .string "tuple"
  | .tensor items => variantValue "tensor" (.list (encodeTypes items))
  | .unit => .string "unit"
  | .hole => .string "hole"

def encodeTypes : List ValueType → List Value
  | [] => []
  | type :: types => type.encode :: encodeTypes types

end

def Attribute.encode : Attribute → Value
  | .impure => .string "impure"
  | .inlined => .string "inline"
  | .inlinedByRef => .string "inline_ref"
  | .methodId id =>
    variantValue "method_id" (.ofOption (fun n : UInt32 => .integer n.toNat) id)

def Parameter.encode (p : Parameter) : Value :=
  .object [("name", .string p.name), ("ty", p.type.encode)]

def BinaryOp.name : BinaryOp → String
  | .add => "add"
  | .sub => "sub"
  | .mul => "mul"
  | .div => "div"
  | .mod => "mod"
  | .eq => "eq"
  | .ne => "ne"
  | .lt => "lt"
  | .le => "le"
  | .gt => "gt"
  | .ge => "ge"
  | .bitAnd => "bit_and"
  | .bitOr => "bit_or"
  | .bitXor => "bit_xor"
  | .shl => "shl"
  | .shr => "shr"

def UnaryOp.name : UnaryOp → String
  | .neg => "neg"
  | .bitNot => "bit_not"

def BinaryOp.encode (op : BinaryOp) : Value := .string op.name

def UnaryOp.encode (op : UnaryOp) : Value := .string op.name

mutual

def Expr.encode : Expr → Value
  | .id name => variantValue "id" (.string name)
  | .int value => variantValue "int" (.integer value.toInt)
  | .bool value => variantValue "bool" (.boolean value)
  | .str value => variantValue "str" (.string value)
  | .nil => .string "nil"
  | .hole => .string "hole"
  | .call callee args =>
    variantValue "call" (.object [("fun", callee.encode), ("args", .list (encodeExprs args))])
  | .method receiver name args modifying =>
    variantValue "method_call" (.object [("receiver", receiver.encode), ("method", .string name),
      ("args", .list (encodeExprs args)), ("modifying", .boolean modifying)])
  | .binary op left right =>
    variantValue "binary" (.object [("op", op.encode), ("lhs", left.encode),
      ("rhs", right.encode)])
  | .unary op operand =>
    variantValue "unary" (.object [("op", op.encode), ("operand", operand.encode)])
  | .ternary cond onTrue onFalse =>
    variantValue "ternary" (.object [("cond", cond.encode), ("then", onTrue.encode),
      ("otherwise", onFalse.encode)])
  | .tensor items => variantValue "tensor" (.list (encodeExprs items))
  | .tuple items => variantValue "tuple" (.list (encodeExprs items))

def encodeExprs : List Expr → List Value
  | [] => []
  | e :: es => e.encode :: encodeExprs es

end

def Stmt.tag : Stmt → String
  | .block _ => "block"
  | .declare _ _ _ => "let"
  | .assign _ _ _ => "assign"
  | .expr _ => "expr"
  | .ret _ => "return"
  | .branch _ _ _ _ => "if"
  | .repeatTimes _ _ => "repeat"
  | .whileTrue _ _ => "while"
  | .doUntil _ _ => "do_until"
  | .tryCatch _ _ _ => "try_catch"

mutual

def Stmt.encode : Stmt → Value
  | .block body => variantValue "block" (.list (encodeStmts body))
  | .declare type target value =>
    variantValue "let" (.object [("ty", type.encode), ("target", target.encode),
      ("value", .ofOption Expr.encode value)])
  | .assign target op value =>
    variantValue "assign" (.object [("target", target.encode),
      ("op", .ofOption BinaryOp.encode op), ("value", value.encode)])
  | .expr value => variantValue "expr" value.encode
  | .ret value => variantValue "return" value.encode
  | .branch cond negated onTrue onFalse =>
    variantValue "if" (.object [("cond", cond.encode), ("negated", .boolean negated),
      ("then", .list (encodeStmts onTrue)), ("otherwise", encodeOtherwise onFalse)])
  | .repeatTimes count body =>
    variantValue "repeat" (.object [("count", count.encode), ("body", .list (encodeStmts body))])
  | .whileTrue cond body =>
    variantValue "while" (.object [("cond", cond.encode), ("body", .list (encodeStmts body))])
  | .doUntil body cond =>
    variantValue "do_until" (.object [("body", .list (encodeStmts body)), ("cond", cond.encode)])
  | .tryCatch body caught handler =>
    variantValue "try_catch" (.object [("body", .list (encodeStmts body)),
      ("catch_vars", .names caught), ("handler", .list (encodeStmts handler))])

def encodeStmts : List Stmt → List Value
  | [] => []
  | s :: ss => s.encode :: encodeStmts ss

def encodeOtherwise : Option (List Stmt) → Value
  | none => .null
  | some body => .list (encodeStmts body)

end

def Definition.encode (d : Definition) : Value :=
  .object [("attrs", .ofList Attribute.encode d.attributes), ("name", .string d.name),
    ("params", .ofList Parameter.encode d.params), ("return_ty", d.returnType.encode),
    ("body", .list (encodeStmts d.body))]

def AsmDefinition.encode (d : AsmDefinition) : Value :=
  .object [("attrs", .ofList Attribute.encode d.attributes), ("name", .string d.name),
    ("params", .ofList Parameter.encode d.params), ("return_ty", d.returnType.encode),
    ("asm", .string d.code)]

end CompilationUnit
