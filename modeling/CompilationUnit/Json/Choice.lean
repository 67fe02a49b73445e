import CompilationUnit.Json.Record

/-!
Choices: values of one of several named variants. A variant without data is its name alone; one with
data is an object with the name as its only key. A tagged choice is a record instead, in which one
member names the variant and the others are its fields.
-/
namespace CompilationUnit.Json

inductive Payload (α : Type)
  | nothing (a : α)
  | single (read : Reader α)
  | fields (read : Reader α)

def findVariant (variants : List (String × β)) (name : String) : Except Fault β :=
  match variants.find? fun v => v.1 == name with
  | some v => .ok v.2
  | none => .error (.unknownVariant name (variants.map Prod.fst))

def Payload.bare : Payload α → Except Fault α
  | .nothing a => .ok a
  | .single _ => .error (.invalidType .bareVariant "newtype variant")
  | .fields _ => .error (.invalidType .bareVariant "struct variant")

def Payload.read : Payload α → Reader α
  | .nothing a => Reader.nothing.map fun _ => a
  | .single r => r
  | .fields r => r

def variantKeyFault (variants : List (String × β)) (stop : ObjectEnd) : Except Fault α := do
  match stop with
  | .endOfText => .error .endInObject
  | .notKey => .error .keyNotString
  | .noColon key atEnd =>
    let name ← key.value
    let _ ← findVariant variants name
    .error (if atEnd then .endInObject else .colonExpected)
  | _ => .error .valueExpected

def endVariant (others : List (Quoted × Outline)) (stop : ObjectEnd) : Except Fault Unit :=
  match others, stop with
  | [], .closed => .ok ()
  | [], .endOfText => .error .endInObject
  | _, _ => .error .valueExpected

def Reader.choice (variants : List (String × Payload α)) : Reader α :=
  fun holding depth outline =>
    match holding, outline with
    | _, .leaf (.string quoted) => do
      let name ← quoted.value
      let payload ← findVariant variants name
      payload.bare
    | .streamed, .object ((key, value) :: others) stop => do
      let depth ← enter depth
      let name ← key.value
      let payload ← findVariant variants name
      let a ← payload.read .streamed depth value
      endVariant others stop
      pure a
    | .streamed, .object [] stop => do
      let _ ← enter depth
      variantKeyFault variants stop
    | .streamed, .leaf .missing => .error .endInValue
    | .streamed, _ => .error .valueExpected
    | _, .object [(key, value)] _ => do
      let depth ← enter depth
      let name ← key.value
      let payload ← findVariant variants name
      payload.read holding depth value
    | _, .object _ _ => .error (.invalidValue .map "map with a single key")
    | _, other => .error (other.mismatch "string or map")

structure Tagged (β : Type) where
  tag : Option β
  others : List (Quoted × Outline)

def readTag (variants : List (String × β)) (holding : Holding) (depth : Nat) (value : Outline) :
    Except Fault β := do
  let name ← Reader.text "variant identifier" holding depth value
  findVariant variants name

def readTagged (variants : List (String × β)) (tagName : String) (holding : Holding) (depth : Nat)
    (stop : ObjectEnd) : Option β → List (Quoted × Outline) → Except Fault (Tagged β)
  | tag, [] => do
    match stop with
    | .noColon key _ =>
      let name ← key.value
      if name = tagName ∧ tag.isSome then .error (.duplicateField tagName)
    | _ => pure ()
    refuse stop.fault?
    pure ⟨tag, []⟩
  | tag, (key, value) :: members => do
    let name ← key.value
    if name = tagName then
      if tag.isSome then .error (.duplicateField tagName)
      else
        let found ← readTag variants holding depth value
        readTagged variants tagName holding depth stop (some found) members
    else
      value.check depth
      let result ← readTagged variants tagName holding depth stop tag members
      pure { result with others := (key, value) :: result.others }

/-- Reads a tagged choice: the rest of it is set aside and read as the fields of its variant. -/
def Reader.tagged (wanted tagName : String) (variants : List (String × Reader α)) : Reader α :=
  fun holding depth outline =>
    match outline with
    | .object members stop => do
      let inner ← enter depth
      let result ← readTagged variants tagName holding inner stop none members
      match result.tag with
      | none => .error (.missingField tagName)
      | some read => read .buffered depth (.object result.others .closed)
    | .list items stop => do
      let inner ← enter depth
      match items with
      | [] =>
        refuse stop.fault?
        .error (.missingField tagName)
      | first :: others =>
        let read ← readTag variants holding inner first
        checkItems inner others
        refuse stop.fault?
        read .buffered depth (.list others .closed)
    | other => .error (other.mismatch wanted)

end CompilationUnit.Json
