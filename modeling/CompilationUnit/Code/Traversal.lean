import CompilationUnit.Code.Basic
import CompilationUnit.NameSet

/-!
Traversal of function bodies. Every statement and every expression nested in it is met once, in
source order. Nothing is evaluated: both arms of a conditional and the bodies of loops that might
never run are met all the same.
-/
namespace CompilationUnit

/-- What a walk over statements meets: the start and the end of a statement, and each expression
that stands in no other expression. -/
inductive Visit
  | enter (statement : Stmt)
  | expr (e : Expr)
  | leave (statement : Stmt)
  deriving Repr

mutual

def Stmt.visits (s : Stmt) : List Visit :=
  .enter s :: (match s with
    | .block body => visitsOf body
    | .declare _ target none => [.expr target]
    | .declare _ target (some value) => [.expr target, .expr value]
    | .assign target _ value => [.expr target, .expr value]
    | .expr value => [.expr value]
    | .ret value => [.expr value]
    | .branch cond _ onTrue none => .expr cond :: visitsOf onTrue
    | .branch cond _ onTrue (some onFalse) => .expr cond :: (visitsOf onTrue ++ visitsOf onFalse)
    | .repeatTimes count body => .expr count :: visitsOf body
    | .whileTrue cond body => .expr cond :: visitsOf body
    | .doUntil body cond => visitsOf body ++ [.expr cond]
    | .tryCatch body _ handler => visitsOf body ++ visitsOf handler) ++ [.leave s]

def visitsOf : List Stmt → List Visit
  | [] => []
  | s :: ss => s.visits ++ visitsOf ss

end

def Visit.expr? : Visit → Option Expr
  | .expr e => some e
  | _ => none

mutual

def Expr.all : Expr → List Expr
  | .id name => [.id name]
  | .int value => [.int value]
  | .bool value => [.bool value]
  | .str value => [.str value]
  | .nil => [.nil]
  | .hole => [.hole]
  | .call callee args => .call callee args :: (callee.all ++ allOf args)
  | .method receiver name args modifying =>
    .method receiver name args modifying :: (receiver.all ++ allOf args)
  | .binary op left right => .binary op left right :: (left.all ++ right.all)
  | .unary op operand => .unary op operand :: operand.all
  | .ternary cond onTrue onFalse =>
    .ternary cond onTrue onFalse :: (cond.all ++ onTrue.all ++ onFalse.all)
  | .tensor items => .tensor items :: allOf items
  | .tuple items => .tuple items :: allOf items

def allOf : List Expr → List Expr
  | [] => []
  | e :: es => e.all ++ allOf es

end

def Definition.visits (d : Definition) : List Visit := visitsOf d.body

def Definition.outermost (d : Definition) : List Expr := d.visits.filterMap Visit.expr?

def Definition.expressions (d : Definition) : List Expr := allOf d.outermost

def Expr.directCallee? : Expr → Option String
  | .call (.id name) _ => some name
  | _ => none

def Definition.directCallees (d : Definition) : NameSet :=
  .ofList (d.expressions.filterMap Expr.directCallee?)

def Expr.isMethodCall : Expr → Bool
  | .method _ _ _ _ => true
  | _ => false

end CompilationUnit
