import CompilationUnit.Code.Basic

/-!
Code on one line, as it is written out: types, expressions and the heads of functions. An operand
that is itself an operator application stands in parentheses, so no precedence is needed.
-/
namespace CompilationUnit

def commaSeparated : List String → String
  | [] => ""
  | first :: others => first ++ String.join (others.map (", " ++ ·))

mutual

def ValueType.text : ValueType → String
  | .int => "int"
  | .cell => "cell"
  | .slice => "slice"
  | .builder => "builder"
  | .cont => "cont"
  | .tuple => "tuple"
  | .tensor items => "(" ++ typesText "" items ++ ")"
  | .unit => "()"
  | .hole => "_"

def typesText (separator : String) : List ValueType → String
  | [] => ""
  | type :: types => separator ++ type.text ++ typesText ", " types

end

def BinaryOp.sign : BinaryOp → String
  | .add => "+"
  | .sub => "-"
  | .mul => "*"
  | .div => "/"
  | .mod => "%"
  | .eq => "=="
  | .ne => "!="
  | .lt => "<"
  | .le => "<="
  | .gt => ">"
  | .ge => ">="
  | .bitAnd => "&"
  | .bitOr => "|"
  | .bitXor => "^"
  | .shl => "<<"
  | .shr => ">>"

def UnaryOp.sign : UnaryOp → String
  | .neg => "-"
  | .bitNot => "~"

def Expr.isOperation : Expr → Bool
  | .binary _ _ _ => true
  | .unary _ _ => true
  | .ternary _ _ _ => true
  | _ => false

def Expr.isName : Expr → Bool
  | .id _ => true
  | _ => false

def parenthesized (needed : Bool) (text : String) : String :=
  if needed then "(" ++ text ++ ")" else text

mutual

def Expr.text : Expr → String
  | .id name => name
  | .int value => toString value.toInt
  | .bool true => "true"
  | .bool false => "false"
  | .str value => "\"" ++ value ++ "\""
  | .nil => "null()"
  | .hole => "_"
  | .call callee args =>
    parenthesized (!callee.isName) callee.text ++ "(" ++ exprsText "" args ++ ")"
  | .method receiver name args modifying =>
    parenthesized receiver.isOperation receiver.text ++ (if modifying then "~" else ".") ++ name
      ++ "(" ++ exprsText "" args ++ ")"
  | .binary op left right =>
    parenthesized left.isOperation left.text ++ " " ++ op.sign ++ " "
      ++ parenthesized right.isOperation right.text
  | .unary op operand => op.sign ++ parenthesized operand.isOperation operand.text
  | .ternary cond onTrue onFalse =>
    parenthesized cond.isOperation cond.text ++ " ? "
      ++ parenthesized onTrue.isOperation onTrue.text ++ " : "
      ++ parenthesized onFalse.isOperation onFalse.text
  | .tensor items => "(" ++ exprsText "" items ++ ")"
  | .tuple items => "[" ++ exprsText "" items ++ "]"

def exprsText (separator : String) : List Expr → String
  | [] => ""
  | e :: es => separator ++ e.text ++ exprsText ", " es

end

def Parameter.text (p : Parameter) : String := p.type.text ++ " " ++ p.name

def paramsText (params : List Parameter) : String := commaSeparated (params.map Parameter.text)

def Attribute.text : Attribute → String
  | .impure => "impure"
  | .inlined => "inline"
  | .inlinedByRef => "inline_ref"
  | .methodId none => "method_id"
  | .methodId (some id) => "method_id(" ++ toString id.toNat ++ ")"

def headText (returnType : ValueType) (name : String) (params : List Parameter)
    (attributes : List Attribute) : String :=
  returnType.text ++ " " ++ name ++ "(" ++ paramsText params ++ ")"
    ++ String.join (attributes.map fun a => " " ++ a.text)

def Definition.signature (d : Definition) : String :=
  headText d.returnType d.name d.params d.attributes

def AsmDefinition.text (d : AsmDefinition) : String :=
  headText d.returnType d.name d.params d.attributes ++ " asm \"" ++ d.code ++ "\";"

end CompilationUnit
