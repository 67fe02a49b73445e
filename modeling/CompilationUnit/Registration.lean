import CompilationUnit.Code.Decoding
import CompilationUnit.Code.Equality
import CompilationUnit.Placement

/-!
Registrations: a function as it is handed in, with what the code alone does not tell about it.
-/
namespace CompilationUnit

open Json (Value Reader Field Fields Title)

structure Info where
  placement : Option Placement
  entryPoint : Bool
  /-- Dependencies that no direct call shows. -/
  dependsOn : List String
  deriving DecidableEq, Repr

namespace Info

def default : Info := ⟨none, false, []⟩

def withPlacement (info : Info) (placement : Placement) : Info :=
  { info with placement := some placement }

def asEntryPoint (info : Info) : Info := { info with entryPoint := true }

def withDependencies (info : Info) (names : List String) : Info :=
  { info with dependsOn := info.dependsOn ++ names }

def encode (info : Info) : Value :=
  .object [("placement", .ofOption Placement.encode info.placement),
    ("entry_point", .boolean info.entryPoint), ("depends_on", .names info.dependsOn)]

def fields : Fields [Option Placement, Bool, List String] :=
  .cons (.withDefault "placement" Placement.reader.optional none) <|
  .cons (.withDefault "entry_point" .boolean false) <|
  .cons (.withDefault "depends_on" Reader.string.list []) .nil

def reader : Reader Info :=
  (Reader.record (.struct "FunctionInfo") fields).map
    fun (placement, entryPoint, dependsOn, _) => ⟨placement, entryPoint, dependsOn⟩

end Info

inductive Registration
  | ordinary (definition : Definition) (info : Info)
  | asm (definition : AsmDefinition) (info : Info)
  | placeholder (name : String) (info : Info)
  deriving DecidableEq, Repr

namespace Registration

def name : Registration → String
  | .ordinary definition _ => definition.name
  | .asm definition _ => definition.name
  | .placeholder name _ => name

def info : Registration → Info
  | .ordinary _ info => info
  | .asm _ info => info
  | .placeholder _ info => info

def encode : Registration → Value
  | .ordinary definition info =>
    .object [("kind", .string "ordinary"), ("definition", definition.encode), ("info", info.encode)]
  | .asm definition info =>
    .object [("kind", .string "asm"), ("definition", definition.encode), ("info", info.encode)]
  | .placeholder name info =>
    .object [("kind", .string "placeholder"), ("name", .string name), ("info", info.encode)]

def ordinaryFields : Fields [Definition, Info] :=
  .cons (.required "definition" Definition.reader) <|
  .cons (.withDefault "info" Info.reader .default) .nil

def asmFields : Fields [AsmDefinition, Info] :=
  .cons (.required "definition" AsmDefinition.reader) <|
  .cons (.withDefault "info" Info.reader .default) .nil

def placeholderFields : Fields [String, Info] :=
  .cons (.required "name" .string) <|
  .cons (.withDefault "info" Info.reader .default) .nil

def variants : List (String × Reader Registration) :=
  [ ("ordinary", (Reader.record (.variant "Registration" "Ordinary") ordinaryFields).map
      fun (definition, info, _) => .ordinary definition info),
    ("asm", (Reader.record (.variant "Registration" "Asm") asmFields).map
      fun (definition, info, _) => .asm definition info),
    ("placeholder", (Reader.record (.variant "Registration" "Placeholder") placeholderFields).map
      fun (name, info, _) => .placeholder name info)]

def reader : Reader Registration :=
  .tagged "internally tagged enum Registration" "kind" variants

end Registration

end CompilationUnit
