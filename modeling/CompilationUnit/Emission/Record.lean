import CompilationUnit.Registry

/-!
Emission records: one function of an extraction each, for tools that do not want its code.
-/
namespace CompilationUnit

open Json (Value)

structure EmissionRecord where
  index : Nat
  name : String
  kind : Kind
  placement : Option String
  entryPoint : Bool
  dependencies : List String
  deriving DecidableEq, Repr

namespace EmissionRecord

def ofEntry (index : Nat) (e : Entry) : EmissionRecord :=
  { index := index
    name := e.name
    kind := e.kind
    placement := e.placement.map Placement.text
    entryPoint := e.isEntryPoint
    dependencies := e.dependencies.names }

def encode (r : EmissionRecord) : Value :=
  .object [("index", .integer r.index), ("name", .string r.name), ("kind", r.kind.encode),
    ("placement", .ofOption .string r.placement), ("entry_point", .boolean r.entryPoint),
    ("dependencies", .names r.dependencies)]

end EmissionRecord

def recordsOf (functions : List Entry) : List EmissionRecord :=
  functions.mapIdx EmissionRecord.ofEntry

def recordsText (functions : List Entry) : String :=
  (Value.ofList EmissionRecord.encode (recordsOf functions)).pretty

end CompilationUnit
