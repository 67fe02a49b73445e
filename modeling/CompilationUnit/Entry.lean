import CompilationUnit.Code.Traversal
import CompilationUnit.Registration

/-!
Entries: functions as a registry keeps them, with all their dependencies.
-/
namespace CompilationUnit

open Json (Value Reader)

inductive Kind
  | asm
  | placeholder
  | ordinary
  deriving DecidableEq, Repr

inductive Body
  | ordinary (definition : Definition)
  | asm (definition : AsmDefinition)
  /-- Defined elsewhere: never written out, but something to depend on. -/
  | placeholder
  deriving DecidableEq, Repr

structure Entry where
  name : String
  body : Body
  placement : Option Placement
  isEntryPoint : Bool
  dependencies : NameSet
  deriving DecidableEq, Repr

namespace Body

def kind : Body → Kind
  | .ordinary _ => .ordinary
  | .asm _ => .asm
  | .placeholder => .placeholder

def encode : Body → Value
  | .ordinary definition =>
    .object [("kind", .string "ordinary"), ("definition", definition.encode)]
  | .asm definition => .object [("kind", .string "asm"), ("definition", definition.encode)]
  | .placeholder => .object [("kind", .string "placeholder")]

end Body

namespace Kind

def name : Kind → String
  | .asm => "asm"
  | .placeholder => "placeholder"
  | .ordinary => "ordinary"

def encode (k : Kind) : Value := .string k.name

def reader : Reader Kind :=
  .choice ([.asm, .placeholder, .ordinary].map fun k => (k.name, .nothing k))

end Kind

namespace Entry

def kind (e : Entry) : Kind := e.body.kind

def isPlaceholder (e : Entry) : Bool := e.body == .placeholder

def definition? (e : Entry) : Option Definition :=
  match e.body with
  | .ordinary definition => some definition
  | _ => none

def asm? (e : Entry) : Option AsmDefinition :=
  match e.body with
  | .asm definition => some definition
  | _ => none

def ofRegistration : Registration → Entry
  | .ordinary definition info =>
    { name := definition.name
      body := .ordinary definition
      placement := info.placement
      isEntryPoint := info.entryPoint
      dependencies := definition.directCallees.insertAll info.dependsOn }
  | .asm definition info =>
    { name := definition.name
      body := .asm definition
      placement := info.placement
      isEntryPoint := info.entryPoint
      dependencies := .ofList info.dependsOn }
  | .placeholder name info =>
    { name := name
      body := .placeholder
      placement := info.placement
      isEntryPoint := info.entryPoint
      dependencies := .ofList info.dependsOn }

def encode (e : Entry) : Value :=
  .object [("name", .string e.name), ("body", e.body.encode),
    ("placement", .ofOption Placement.encode e.placement),
    ("is_entry_point", .boolean e.isEntryPoint), ("dependencies", .names e.dependencies.names)]

end Entry

end CompilationUnit
