import CompilationUnit.Json.Document
import CompilationUnit.Json.Plain

/-!
Readers of typed values. A reader walks an outline in reading order and stops at the first problem.
Where a value has been read once as plain JSON, problems of spelling can no longer arise, and a few
type errors are worded differently.
-/
namespace CompilationUnit.Json

/-- How a value is held while it is read: as text that is still being read, as a part of the text that was
set aside, or as plain JSON that was there before. -/
inductive Holding
  | streamed
  | buffered
  | complete
  deriving DecidableEq, Repr

def Reader (α : Type) := Holding → Nat → Outline → Except Fault α

def Reader.map (f : α → β) (r : Reader α) : Reader β :=
  fun holding depth outline => (r holding depth outline).map f

def nestingLimit : Nat := 128

def Reader.readDocument (r : Reader α) (d : Document) : Except Fault α := do
  let value ← r .streamed nestingLimit d.root
  if d.overrun then .error .trailingCharacters else pure value

def Reader.readText (r : Reader α) (text : String) : Except Fault α :=
  r.readDocument (.ofText text)

def Leaf.mismatch (wanted : String) : Leaf → Fault
  | .null => .invalidType .null wanted
  | .boolean b => .invalidType (.boolean b) wanted
  | .number (.ok (.integer i)) _ => .invalidType (.integer i) wanted
  | .number (.ok (.real text)) _ => .invalidType (.real text) wanted
  | .number (.error fault) _ => fault
  | .string ⟨.ok s, _⟩ => .invalidType (.string s) wanted
  | .string ⟨.error fault, _⟩ => fault
  | .misspelt _ fault => fault
  | .stray => .valueExpected
  | .missing => .endInValue

def Outline.mismatch (wanted : String) : Outline → Fault
  | .leaf l => l.mismatch wanted
  | .list _ _ => .invalidType .sequence wanted
  | .object _ _ => .invalidType .map wanted

def Reader.text (wanted : String) : Reader String := fun _ _ outline =>
  match outline with
  | .leaf (.string quoted) => quoted.value
  | other => .error (other.mismatch wanted)

def Reader.string : Reader String := .text "a string"

def Reader.boolean : Reader Bool := fun _ _ outline =>
  match outline with
  | .leaf (.boolean b) => .ok b
  | other => .error (other.mismatch "a boolean")

def Reader.integer (low high : Int) (wanted : String) : Reader Int := fun _ _ outline =>
  match outline with
  | .leaf (.number (.ok (.integer i)) _) =>
    if low ≤ i ∧ i ≤ high then .ok i else .error (.invalidValue (.integer i) wanted)
  | other => .error (other.mismatch wanted)

def Reader.int64 : Reader Int64 :=
  (Reader.integer Int64.minValue.toInt Int64.maxValue.toInt "i64").map Int64.ofInt

def Reader.uint32 : Reader UInt32 :=
  (Reader.integer 0 0xffffffff "u32").map fun i => UInt32.ofNat i.toNat

def Reader.size : Reader Nat :=
  (Reader.integer 0 0xffffffffffffffff "usize").map Int.toNat

def Reader.optional (r : Reader α) : Reader (Option α) := fun holding depth outline =>
  match outline with
  | .leaf .null => .ok none
  | .leaf (.misspelt 'n' fault) => .error fault
  | other => (r holding depth other).map some

def Reader.items (r : Reader α) (holding : Holding) (depth : Nat) (stop : ListEnd) :
    List Outline → Except Fault (List α)
  | [] => do
    refuse stop.fault?
    pure []
  | item :: items => do
    let first ← r holding depth item
    let others ← r.items holding depth stop items
    pure (first :: others)

def Reader.list (r : Reader α) : Reader (List α) := fun holding depth outline =>
  match outline with
  | .list items stop => do
    let depth ← enter depth
    r.items holding depth stop items
  | other => .error (other.mismatch "a sequence")

def Reader.nothing : Reader Unit := fun holding _ outline =>
  match holding, outline with
  | _, .leaf .null => .ok ()
  | .buffered, .object [] _ => .ok ()
  | _, other => .error (other.mismatch "unit")

def Reader.layers (layer : Reader α → Reader α) : Nat → Reader α
  | 0 => fun _ _ _ => .error .tooDeep
  | n + 1 => layer (layers layer n)

/-- The reader of a type whose values hold values of the same type, each at least one level of
nesting further in. -/
def Reader.nested (layer : Reader α → Reader α) : Reader α := fun holding depth outline =>
  Reader.layers layer (depth + 1) holding depth outline

end CompilationUnit.Json
