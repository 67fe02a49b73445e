import CompilationUnit.Json.Reader

/-!
Complete values: what a text says once all of it has been read as plain JSON. The members of an
object then stand in the order of their names, and of several with one name the last counts.
-/
namespace CompilationUnit.Json

def Quoted.name (q : Quoted) : String := q.value.toOption.getD ""

def putMember (key : Quoted) (value : Outline) : List (Quoted × Outline) → List (Quoted × Outline)
  | [] => [(key, value)]
  | (other, held) :: members =>
    if key.name < other.name then (key, value) :: (other, held) :: members
    else if key.name = other.name then (key, value) :: members
    else (other, held) :: putMember key value members

mutual

def Outline.inOrder : Outline → Outline
  | .leaf l => .leaf l
  | .list items stop => .list (itemsInOrder items) stop
  | .object members stop => .object (membersInOrder [] members) stop

def itemsInOrder : List Outline → List Outline
  | [] => []
  | item :: items => item.inOrder :: itemsInOrder items

def membersInOrder (before : List (Quoted × Outline)) :
    List (Quoted × Outline) → List (Quoted × Outline)
  | [] => before
  | (key, value) :: members => membersInOrder (putMember key value.inOrder before) members

end

def Document.complete (d : Document) : Except Fault Outline := do
  d.root.check nestingLimit
  if d.overrun then .error .trailingCharacters else pure d.root.inOrder

def Reader.readComplete (r : Reader α) (value : Outline) : Except Fault α :=
  r .complete nestingLimit value

end CompilationUnit.Json
