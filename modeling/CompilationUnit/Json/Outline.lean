import CompilationUnit.Json.Token

/-!
Outlines: the tree of a JSON text as far as the text can be followed. A text that breaks off has an
outline too, whose last container says how it ends; what that is worth is for a reader to say, and
it may refuse an earlier value first.
-/
namespace CompilationUnit.Json

inductive ListEnd
  | closed
  | endOfText
  | noComma
  | trailingComma
  | endAfterComma
  | cut
  deriving DecidableEq, Repr

inductive ObjectEnd
  | closed
  | endOfText
  | noComma
  | trailingComma
  | endAfterComma
  | notKey
  | noColon (key : Quoted) (atEnd : Bool)
  | cut

inductive Outline
  | leaf (l : Leaf)
  | list (items : List Outline) (stop : ListEnd)
  | object (members : List (Quoted × Outline)) (stop : ObjectEnd)

end CompilationUnit.Json
