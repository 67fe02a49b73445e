import CompilationUnit.Registry

/-!
Manifests: a sequence of registrations as a JSON text, from which a registry can be rebuilt.
-/
namespace CompilationUnit

open Json (Value Reader Fault Fields)

structure Manifest where
  policy : Policy
  functions : List Registration
  deriving DecidableEq, Repr

namespace Manifest

def encode (m : Manifest) : Value :=
  .object [("policy", m.policy.encode), ("functions", .ofList Registration.encode m.functions)]

def fields : Fields [Policy, List Registration] :=
  .cons (.withDefault "policy" Policy.reader .overwrite) <|
  .cons (.withDefault "functions" Registration.reader.list []) .nil

def reader : Reader Manifest :=
  (Reader.record (.struct "Manifest") fields).map
    fun (policy, functions, _) => ⟨policy, functions⟩

def ofText (text : String) : Except Fault Manifest := reader.readText text

def text (m : Manifest) : String := m.encode.pretty

end Manifest

structure Replay where
  registry : Registry
  stopped : Option RegistrationError

/-- Registers in order up to the first failure; what was registered before it stays. -/
def Registry.replay (r : Registry) : List Registration → Replay
  | [] => ⟨r, none⟩
  | registration :: others =>
    match r.register registration with
    | .ok next => next.replay others
    | .error error => ⟨r, some error⟩

namespace Manifest

def apply (m : Manifest) (r : Registry) : Replay := r.replay m.functions

def registry (m : Manifest) : Except RegistrationError Registry :=
  match m.apply (.empty m.policy) with
  | ⟨r, none⟩ => .ok r
  | ⟨_, some error⟩ => .error error

end Manifest

end CompilationUnit
