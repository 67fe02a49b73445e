/-!
The code of generated functions: types, expressions, statements and definitions. Only the shape
that is registered, scanned and written out; nothing here says what the code computes.
-/
namespace CompilationUnit

inductive ValueType
  | int
  | cell
  | slice
  | builder
  | cont
  | tuple
  | tensor (items : List ValueType)
  | unit
  | hole
  deriving Repr

inductive Attribute
  | impure
  | inlined
  | inlinedByRef
  | methodId (id : Option UInt32)
  deriving DecidableEq, Repr

structure Parameter where
  name : String
  type : ValueType
  deriving Repr

inductive BinaryOp
  | add | sub | mul | div | mod
  | eq | ne | lt | le | gt | ge
  | bitAnd | bitOr | bitXor | shl | shr
  deriving DecidableEq, Repr

inductive UnaryOp
  | neg | bitNot
  deriving DecidableEq, Repr

inductive Expr
  | id (name : String)
  | int (value : Int64)
  | bool (value : Bool)
  | str (value : String)
  | nil
  | hole
  | call (callee : Expr) (args : List Expr)
  /-- A call on a receiver, which it may modify in place. -/
  | method (receiver : Expr) (name : String) (args : List Expr) (modifying : Bool)
  | binary (op : BinaryOp) (left right : Expr)
  | unary (op : UnaryOp) (operand : Expr)
  | ternary (cond onTrue onFalse : Expr)
  | tensor (items : List Expr)
  | tuple (items : List Expr)
  deriving Repr

inductive Stmt
  | block (body : List Stmt)
  | declare (type : ValueType) (target : Expr) (value : Option Expr)
  | assign (target : Expr) (op : Option BinaryOp) (value : Expr)
  | expr (value : Expr)
  | ret (value : Expr)
  | branch (cond : Expr) (negated : Bool) (onTrue : List Stmt) (onFalse : Option (List Stmt))
  | repeatTimes (count : Expr) (body : List Stmt)
  | whileTrue (cond : Expr) (body : List Stmt)
  | doUntil (body : List Stmt) (cond : Expr)
  | tryCatch (body : List Stmt) (caught : List String) (handler : List Stmt)
  deriving Repr

structure Definition where
  attributes : List Attribute
  name : String
  params : List Parameter
  returnType : ValueType
  body : List Stmt
  deriving Repr

structure AsmDefinition where
  attributes : List Attribute
  name : String
  params : List Parameter
  returnType : ValueType
  code : String
  deriving Repr

def Expr.callName (name : String) (args : List Expr) : Expr := .call (.id name) args

def Stmt.declareName (type : ValueType) (name : String) (value : Expr) : Stmt :=
  .declare type (.id name) (some value)

def Stmt.assignTo (target value : Expr) : Stmt := .assign target none value

def Stmt.branchOn (cond : Expr) (onTrue : List Stmt) (onFalse : Option (List Stmt)) : Stmt :=
  .branch cond false onTrue onFalse

end CompilationUnit
