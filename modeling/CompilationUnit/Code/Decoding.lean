import CompilationUnit.Code.Encoding
import CompilationUnit.Json.Choice

/-!
Code read from JSON. Types, expressions and statements nest in themselves, so each has a layer that
reads one value by way of a reader for the values inside.
-/
namespace CompilationUnit

open Json (Reader Field Fields Title Payload)

def ValueType.layer (inner : Reader ValueType) : Reader ValueType :=
  .choice [
    ("int", .nothing .int),
    ("cell", .nothing .cell),
    ("slice", .nothing .slice),
    ("builder", .nothing .builder),
    ("cont", .nothing .cont),
    ("tuple", .nothing .tuple),
    ("tensor", .single (inner.list.map .tensor)),
    ("unit", .nothing .unit),
    ("hole", .nothing .hole)]

def ValueType.reader : Reader ValueType := .nested ValueType.layer

def Attribute.reader : Reader Attribute :=
  .choice [
    ("impure", .nothing .impure),
    ("inline", .nothing .inlined),
    ("inline_ref", .nothing .inlinedByRef),
    ("method_id", .single (Reader.uint32.optional.map .methodId))]

def Parameter.fields : Fields [String, ValueType] :=
  .cons (.required "name" .string) <|
  .cons (.withDefault "ty" ValueType.reader .hole) .nil

def Parameter.reader : Reader Parameter :=
  (Reader.record (.struct "Param") fields).map fun (name, type, _) => ⟨name, type⟩

def BinaryOp.all : List BinaryOp :=
  [.add, .sub, .mul, .div, .mod, .eq, .ne, .lt, .le, .gt, .ge, .bitAnd, .bitOr, .bitXor, .shl, .shr]

def BinaryOp.reader : Reader BinaryOp := .choice (all.map fun op => (op.name, .nothing op))

def UnaryOp.all : List UnaryOp := [.neg, .bitNot]

def UnaryOp.reader : Reader UnaryOp := .choice (all.map fun op => (op.name, .nothing op))

def Expr.callFields (inner : Reader Expr) : Fields [Expr, List Expr] :=
  .cons (.required "fun" inner) <|
  .cons (.withDefault "args" inner.list []) .nil

def Expr.methodFields (inner : Reader Expr) : Fields [Expr, String, List Expr, Bool] :=
  .cons (.required "receiver" inner) <|
  .cons (.required "method" .string) <|
  .cons (.withDefault "args" inner.list []) <|
  .cons (.withDefault "modifying" .boolean false) .nil

def Expr.binaryFields (inner : Reader Expr) : Fields [BinaryOp, Expr, Expr] :=
  .cons (.required "op" BinaryOp.reader) <|
  .cons (.required "lhs" inner) <|
  .cons (.required "rhs" inner) .nil

def Expr.unaryFields (inner : Reader Expr) : Fields [UnaryOp, Expr] :=
  .cons (.required "op" UnaryOp.reader) <|
  .cons (.required "operand" inner) .nil

def Expr.ternaryFields (inner : Reader Expr) : Fields [Expr, Expr, Expr] :=
  .cons (.required "cond" inner) <|
  .cons (.required "then" inner) <|
  .cons (.required "otherwise" inner) .nil

def Expr.variant (name : String) (fields : Fields τ) (build : Json.Row τ → Expr) :
    Payload Expr :=
  .fields ((Reader.record (.variant "Expr" name) fields).map build)

def Expr.layer (inner : Reader Expr) : Reader Expr :=
  .choice [
    ("id", .single (Reader.string.map .id)),
    ("int", .single (Reader.int64.map .int)),
    ("bool", .single (Reader.boolean.map .bool)),
    ("str", .single (Reader.string.map .str)),
    ("nil", .nothing .nil),
    ("hole", .nothing .hole),
    ("call", Expr.variant "Call" (callFields inner) fun (callee, args, _) => .call callee args),
    ("method_call", Expr.variant "MethodCall" (methodFields inner)
      fun (receiver, name, args, modifying, _) => .method receiver name args modifying),
    ("binary", Expr.variant "Binary" (binaryFields inner)
      fun (op, left, right, _) => .binary op left right),
    ("unary", Expr.variant "Unary" (unaryFields inner)
      fun (op, operand, _) => .unary op operand),
    ("ternary", Expr.variant "Ternary" (ternaryFields inner)
      fun (cond, onTrue, onFalse, _) => .ternary cond onTrue onFalse),
    ("tensor", .single (inner.list.map .tensor)),
    ("tuple", .single (inner.list.map .tuple))]

def Expr.reader : Reader Expr := .nested Expr.layer

def Stmt.declareFields : Fields [ValueType, Expr, Option Expr] :=
  .cons (.withDefault "ty" ValueType.reader .hole) <|
  .cons (.required "target" Expr.reader) <|
  .cons (.withDefault "value" Expr.reader.optional none) .nil

def Stmt.assignFields : Fields [Expr, Option BinaryOp, Expr] :=
  .cons (.required "target" Expr.reader) <|
  .cons (.withDefault "op" BinaryOp.reader.optional none) <|
  .cons (.required "value" Expr.reader) .nil

def Stmt.branchFields (inner : Reader Stmt) :
    Fields [Expr, Bool, List Stmt, Option (List Stmt)] :=
  .cons (.required "cond" Expr.reader) <|
  .cons (.withDefault "negated" .boolean false) <|
  .cons (.required "then" inner.list) <|
  .cons (.withDefault "otherwise" inner.list.optional none) .nil

def Stmt.repeatFields (inner : Reader Stmt) : Fields [Expr, List Stmt] :=
  .cons (.required "count" Expr.reader) <|
  .cons (.required "body" inner.list) .nil

def Stmt.whileFields (inner : Reader Stmt) : Fields [Expr, List Stmt] :=
  .cons (.required "cond" Expr.reader) <|
  .cons (.required "body" inner.list) .nil

def Stmt.doUntilFields (inner : Reader Stmt) : Fields [List Stmt, Expr] :=
  .cons (.required "body" inner.list) <|
  .cons (.required "cond" Expr.reader) .nil

def Stmt.tryCatchFields (inner : Reader Stmt) : Fields [List Stmt, List String, List Stmt] :=
  .cons (.required "body" inner.list) <|
  .cons (.withDefault "catch_vars" Reader.string.list []) <|
  .cons (.required "handler" inner.list) .nil

def Stmt.variant (name : String) (fields : Fields τ) (build : Json.Row τ → Stmt) :
    Payload Stmt :=
  .fields ((Reader.record (.variant "Stmt" name) fields).map build)

def Stmt.layer (inner : Reader Stmt) : Reader Stmt :=
  .choice [
    ("block", .single (inner.list.map .block)),
    ("let", Stmt.variant "Let" declareFields
      fun (type, target, value, _) => .declare type target value),
    ("assign", Stmt.variant "Assign" assignFields
      fun (target, op, value, _) => .assign target op value),
    ("expr", .single (Expr.reader.map .expr)),
    ("return", .single (Expr.reader.map .ret)),
    ("if", Stmt.variant "If" (branchFields inner)
      fun (cond, negated, onTrue, onFalse, _) => .branch cond negated onTrue onFalse),
    ("repeat", Stmt.variant "Repeat" (repeatFields inner)
      fun (count, body, _) => .repeatTimes count body),
    ("while", Stmt.variant "While" (whileFields inner)
      fun (cond, body, _) => .whileTrue cond body),
    ("do_until", Stmt.variant "DoUntil" (doUntilFields inner)
      fun (body, cond, _) => .doUntil body cond),
    ("try_catch", Stmt.variant "TryCatch" (tryCatchFields inner)
      fun (body, caught, handler, _) => .tryCatch body caught handler)]

def Stmt.reader : Reader Stmt := .nested Stmt.layer

def Definition.fields :
    Fields [List Attribute, String, List Parameter, ValueType, List Stmt] :=
  .cons (.withDefault "attrs" Attribute.reader.list []) <|
  .cons (.required "name" .string) <|
  .cons (.withDefault "params" Parameter.reader.list []) <|
  .cons (.withDefault "return_ty" ValueType.reader .hole) <|
  .cons (.withDefault "body" Stmt.reader.list []) .nil

def Definition.reader : Reader Definition :=
  (Reader.record (.struct "FunctionDefinition") fields).map
    fun (attributes, name, params, returnType, body, _) =>
      ⟨attributes, name, params, returnType, body⟩

def AsmDefinition.fields :
    Fields [List Attribute, String, List Parameter, ValueType, String] :=
  .cons (.withDefault "attrs" Attribute.reader.list []) <|
  .cons (.required "name" .string) <|
  .cons (.withDefault "params" Parameter.reader.list []) <|
  .cons (.withDefault "return_ty" ValueType.reader .hole) <|
  .cons (.required "asm" .string) .nil

def AsmDefinition.reader : Reader AsmDefinition :=
  (Reader.record (.struct "AsmFunction") fields).map
    fun (attributes, name, params, returnType, code, _) =>
      ⟨attributes, name, params, returnType, code⟩

end CompilationUnit
