import CompilationUnit.Json.Reader
import CompilationUnit.Json.Value

/-!
Placements: the section of the output that a function is written into. A placement only groups
functions; it never orders them. Its text is the key of the section and what manifests store.
-/
namespace CompilationUnit

inductive Placement
  | stdlib
  | constants
  | type (name : String)
  deriving DecidableEq, Repr

structure InvalidPlacement where
  text : String
  deriving DecidableEq, Repr

def InvalidPlacement.message (e : InvalidPlacement) : String := "Invalid placement: " ++ e.text

namespace Placement

def typeName? : Placement → Option String
  | .type name => some name
  | _ => none

def text : Placement → String
  | .stdlib => "stdlib"
  | .constants => "constants"
  | .type name => "type:" ++ name

def typeMark : List Char := ['t', 'y', 'p', 'e', ':']

def dropBeginning : List Char → List Char → Option (List Char)
  | [], rest => some rest
  | _ :: _, [] => none
  | b :: bs, c :: cs => if b = c then dropBeginning bs cs else none

def ofText (text : String) : Except InvalidPlacement Placement :=
  if text = "stdlib" then .ok .stdlib
  else if text = "constants" then .ok .constants
  else match dropBeginning typeMark text.toList with
    | some (c :: cs) => .ok (.type (String.ofList (c :: cs)))
    | _ => .error ⟨text⟩

def encode (p : Placement) : Json.Value := .string p.text

def reader : Json.Reader Placement := fun holding depth outline => do
  let text ← Json.Reader.string holding depth outline
  match ofText text with
  | .ok placement => pure placement
  | .error invalid => .error (.rejected invalid.message)

end Placement

end CompilationUnit
