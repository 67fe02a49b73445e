import CompilationUnit.Json.Outline

/-!
Plain JSON: values read for their problems only, in reading order. A value that is set aside is
checked in full; one that is passed over only has to be spelt right, however deep it nests and
however large its numbers are.
-/
namespace CompilationUnit.Json

def ListEnd.fault? : ListEnd → Option Fault
  | .closed => none
  | .endOfText => some .endInList
  | .noComma => some .commaOrListEndExpected
  | .trailingComma => some .trailingComma
  | .endAfterComma => some .endInValue
  | .cut => some .valueExpected

def ObjectEnd.fault? : ObjectEnd → Option Fault
  | .closed => none
  | .endOfText => some .endInObject
  | .noComma => some .commaOrObjectEndExpected
  | .trailingComma => some .trailingComma
  | .endAfterComma => some .endInValue
  | .notKey => some .keyNotString
  | .noColon _ true => some .endInObject
  | .noColon _ false => some .colonExpected
  | .cut => some .valueExpected

def refuse : Option Fault → Except Fault Unit
  | none => .ok ()
  | some fault => .error fault

def Leaf.check : Leaf → Except Fault Unit
  | .null => .ok ()
  | .boolean _ => .ok ()
  | .number value _ => value.map fun _ => ()
  | .string quoted => quoted.value.map fun _ => ()
  | .misspelt _ fault => .error fault
  | .stray => .error .valueExpected
  | .missing => .error .endInValue

def enter : Nat → Except Fault Nat
  | 0 => .error .tooDeep
  | 1 => .error .tooDeep
  | depth + 2 => .ok (depth + 1)

def ObjectEnd.check (stop : ObjectEnd) : Except Fault Unit := do
  match stop with
  | .noColon key _ => let _ ← key.value
  | _ => pure ()
  refuse stop.fault?

mutual

def Outline.check (depth : Nat) : Outline → Except Fault Unit
  | .leaf l => l.check
  | .list items stop => do
    let depth ← enter depth
    checkItems depth items
    refuse stop.fault?
  | .object members stop => do
    let depth ← enter depth
    checkMembers depth members
    stop.check

def checkItems (depth : Nat) : List Outline → Except Fault Unit
  | [] => .ok ()
  | item :: items => do
    item.check depth
    checkItems depth items

def checkMembers (depth : Nat) : List (Quoted × Outline) → Except Fault Unit
  | [] => .ok ()
  | (key, value) :: members => do
    let _ ← key.value
    value.check depth
    checkMembers depth members

end

def Leaf.skip : Leaf → Except Fault Unit
  | .null => .ok ()
  | .boolean _ => .ok ()
  | .number _ broken => refuse broken
  | .string quoted => refuse quoted.broken
  | .misspelt _ fault => .error fault
  | .stray => .error .valueExpected
  | .missing => .error .endInValue

def ListEnd.skip : ListEnd → Except Fault Unit
  | .trailingComma => .error .valueExpected
  | stop => refuse stop.fault?

def ObjectEnd.skip : ObjectEnd → Except Fault Unit
  | .trailingComma => .error .keyNotString
  | .endAfterComma => .error .endInObject
  | .noColon key atEnd => do
    refuse key.broken
    refuse (ObjectEnd.noColon key atEnd).fault?
  | stop => refuse stop.fault?

mutual

def Outline.skip : Outline → Except Fault Unit
  | .leaf l => l.skip
  | .list items stop => do
    skipItems items
    stop.skip
  | .object members stop => do
    skipMembers members
    stop.skip

def skipItems : List Outline → Except Fault Unit
  | [] => .ok ()
  | item :: items => do
    item.skip
    skipItems items

def skipMembers : List (Quoted × Outline) → Except Fault Unit
  | [] => .ok ()
  | (_, value) :: members => do
    value.skip
    skipMembers members

end

end CompilationUnit.Json
