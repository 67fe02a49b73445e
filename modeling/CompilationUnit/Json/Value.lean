import CompilationUnit.Json.Quoted

/-!
Complete JSON values and their two written forms: compact, without any blank, and indented by two
spaces a level, with empty lists and objects kept closed. Members keep their order.
-/
namespace CompilationUnit.Json

inductive Value
  | null
  | boolean (b : Bool)
  | integer (i : Int)
  | string (s : String)
  | list (items : List Value)
  | object (members : List (String × Value))
  deriving Repr

def Value.ofOption (encode : α → Value) : Option α → Value
  | none => .null
  | some a => encode a

def Value.ofList (encode : α → Value) (items : List α) : Value := .list (items.map encode)

def Value.names (names : List String) : Value := .list (names.map .string)

def booleanText (b : Bool) : String := if b then "true" else "false"

mutual

def Value.compact : Value → String
  | .null => "null"
  | .boolean b => booleanText b
  | .integer i => toString i
  | .string s => quote s
  | .list items => "[" ++ compactItems "" items ++ "]"
  | .object members => "\x7b" ++ compactMembers "" members ++ "\x7d"

def compactItems (separator : String) : List Value → String
  | [] => ""
  | item :: items => separator ++ item.compact ++ compactItems "," items

def compactMembers (separator : String) : List (String × Value) → String
  | [] => ""
  | (key, value) :: members =>
    separator ++ quote key ++ ":" ++ value.compact ++ compactMembers "," members

end

def newline (level : Nat) : String := "\n" ++ String.ofList (List.replicate (2 * level) ' ')

mutual

def Value.indented (level : Nat) : Value → String
  | .null => "null"
  | .boolean b => booleanText b
  | .integer i => toString i
  | .string s => quote s
  | .list [] => "[]"
  | .list (item :: items) =>
    "[" ++ newline (level + 1) ++ item.indented (level + 1) ++ indentedItems (level + 1) items
      ++ newline level ++ "]"
  | .object [] => "\x7b\x7d"
  | .object ((key, value) :: members) =>
    "\x7b" ++ newline (level + 1) ++ quote key ++ ": " ++ value.indented (level + 1)
      ++ indentedMembers (level + 1) members ++ newline level ++ "\x7d"

def indentedItems (level : Nat) : List Value → String
  | [] => ""
  | item :: items => "," ++ newline level ++ item.indented level ++ indentedItems level items

def indentedMembers (level : Nat) : List (String × Value) → String
  | [] => ""
  | (key, value) :: members =>
    "," ++ newline level ++ quote key ++ ": " ++ value.indented level
      ++ indentedMembers level members

end

def Value.pretty (v : Value) : String := v.indented 0

mutual

def Value.depth : Value → Nat
  | .null => 0
  | .boolean _ => 0
  | .integer _ => 0
  | .string _ => 0
  | .list items => depthItems items + 1
  | .object members => depthMembers members + 1

def depthItems : List Value → Nat
  | [] => 0
  | item :: items => max item.depth (depthItems items)

def depthMembers : List (String × Value) → Nat
  | [] => 0
  | (_, value) :: members => max value.depth (depthMembers members)

end

end CompilationUnit.Json
