import CompilationUnit.Json.Reader

/-!
Records: values with named fields, written as an object in any order or as a list in the order of
declaration. Unknown keys are passed over, a known key may stand once, and a field without a default
has to be there. A variant that is there as plain JSON can only be an object.
-/
namespace CompilationUnit.Json

structure Field (α : Type) where
  name : String
  read : Reader α
  default : Option α

def Field.required (name : String) (read : Reader α) : Field α := ⟨name, read, none⟩

def Field.withDefault (name : String) (read : Reader α) (default : α) : Field α :=
  ⟨name, read, some default⟩

abbrev Row : List Type → Type
  | [] => Unit
  | α :: rest => α × Row rest

abbrev Draft : List Type → Type
  | [] => Unit
  | α :: rest => Option α × Draft rest

inductive Fields : List Type → Type 1
  | nil : Fields []
  | cons (field : Field α) (rest : Fields τ) : Fields (α :: τ)

def Fields.blank : (fields : Fields τ) → Draft τ
  | .nil => ()
  | .cons _ rest => (none, rest.blank)

def Fields.count : Fields τ → Nat
  | .nil => 0
  | .cons _ rest => rest.count + 1

def Fields.holds (key : String) : (fields : Fields τ) → Draft τ → Bool
  | .nil, _ => false
  | .cons field rest, (value, others) =>
    if field.name = key then value.isSome else rest.holds key others

def Fields.put (key : String) (take : {α : Type} → Reader α → Except Fault α) :
    (fields : Fields τ) → Draft τ → Option (Except Fault (Draft τ))
  | .nil, _ => none
  | .cons field rest, (value, others) =>
    if field.name = key then some ((take field.read).map fun v => (some v, others))
    else (rest.put key take others).map fun result => result.map fun others => (value, others)

def Fields.complete : (fields : Fields τ) → Draft τ → Except Fault (Row τ)
  | .nil, _ => .ok ()
  | .cons field rest, (value, others) =>
    match value.or field.default with
    | some v => do
      let vs ← rest.complete others
      pure (v, vs)
    | none => .error (.missingField field.name)

def Fields.refuseRepeated (fields : Fields τ) (draft : Draft τ) (name : String) :
    Except Fault Unit :=
  if fields.holds name draft then .error (.duplicateField name) else .ok ()

def Fields.endMembers (fields : Fields τ) (draft : Draft τ) (stop : ObjectEnd) :
    Except Fault (Draft τ) := do
  match stop with
  | .noColon key _ =>
    let name ← key.value
    fields.refuseRepeated draft name
  | _ => pure ()
  refuse stop.fault?
  pure draft

def Fields.readMembers (fields : Fields τ) (holding : Holding) (depth : Nat) (stop : ObjectEnd) :
    Draft τ → List (Quoted × Outline) → Except Fault (Draft τ)
  | draft, [] => fields.endMembers draft stop
  | draft, (key, value) :: members => do
    let name ← key.value
    fields.refuseRepeated draft name
    match fields.put name (fun r => r holding depth value) draft with
    | some result =>
      let draft ← result
      fields.readMembers holding depth stop draft members
    | none =>
      value.skip
      fields.readMembers holding depth stop draft members

def Fields.defaults (position : Nat) : (fields : Fields τ) → Except Nat (Row τ)
  | .nil => .ok ()
  | .cons field rest =>
    match field.default with
    | some v => do
      let vs ← rest.defaults (position + 1)
      pure (v, vs)
    | none => .error position

def elementsText (n : Nat) : String :=
  if n = 1 then "1 element" else toString n ++ " elements"

def endElements (holding : Holding) (read : Nat) (left : List Outline) (stop : ListEnd) :
    Except Fault Unit :=
  match holding, left, stop with
  | _, [], .closed => .ok ()
  | .buffered, left, _ =>
    .error (.invalidLength (read + left.length) (elementsText read ++ " in sequence"))
  | .complete, left, _ => .error (.invalidLength (read + left.length) "fewer elements in array")
  | .streamed, [], .endOfText => .error .endInList
  | .streamed, [], .trailingComma => .error .trailingComma
  | .streamed, _, _ => .error .trailingCharacters

def Fields.readItems (wanted : String) (holding : Holding) (depth : Nat) (stop : ListEnd)
    (position : Nat) : (fields : Fields τ) → List Outline → Except Fault (Row τ)
  | .nil, left => endElements holding position left stop
  | .cons field rest, item :: items => do
    let v ← field.read holding depth item
    let vs ← rest.readItems wanted holding depth stop (position + 1) items
    pure (v, vs)
  | .cons field rest, [] => do
    refuse stop.fault?
    match (Fields.cons field rest).defaults position with
    | .ok values => pure values
    | .error position => .error (.invalidLength position wanted)

inductive Title
  | struct (name : String)
  | variant (choice name : String)
  deriving DecidableEq, Repr

def Title.text : Title → String
  | .struct name => "struct " ++ name
  | .variant choice name => "struct variant " ++ choice ++ "::" ++ name

def Title.wanted : Title → Holding → String
  | .struct name, _ => (Title.struct name).text
  | title, .streamed => title.text
  | _, _ => "struct variant"

def Title.takesList : Title → Holding → Bool
  | .variant _ _, .complete => false
  | _, _ => true

def Reader.record (title : Title) (fields : Fields τ) : Reader (Row τ) :=
  fun holding depth outline =>
    match outline with
    | .object members stop => do
      let depth ← enter depth
      let draft ← fields.readMembers holding depth stop fields.blank members
      fields.complete draft
    | .list items stop =>
      if title.takesList holding then do
        let depth ← enter depth
        let wanted := title.text ++ " with " ++ elementsText fields.count
        fields.readItems wanted holding depth stop 0 items
      else .error (.invalidType .sequence (title.wanted holding))
    | other => .error (other.mismatch (title.wanted holding))

end CompilationUnit.Json
