import CompilationUnit.Extraction
import CompilationUnit.Manifest

/-!
Operations on a registry, as one machine: what each does to the registry, and what it answers. An
operation that is refused leaves the registry as it was, but for a manifest, whose registrations
before the refused one stay. A query only answers.
-/
namespace CompilationUnit

inductive Query
  | contains (name : String)
  | get (name : String)
  | size
  | names
  | entryPoints
  | policy
  | finalized
  | reachable
  | sequence (live : List String)
  deriving DecidableEq, Repr

inductive Answer
  | truth (b : Bool)
  | entry (e : Option Entry)
  | count (n : Nat)
  | names (names : List String)
  | policy (p : Policy)
  | reachability (found : Reachability)
  | sequence (s : Sequence)
  deriving DecidableEq, Repr

inductive Operation
  | register (registration : Registration)
  | define (definition : Definition) (info : Info)
  | defineAsm (definition : AsmDefinition) (info : Info)
  | apply (manifest : Manifest)
  | extract
  | ask (query : Query)
  deriving DecidableEq, Repr

inductive Outcome
  | done
  | defined (definition : Definition)
  | definedAsm (definition : AsmDefinition)
  | extracted (extraction : Extraction)
  | refused (error : RegistrationError)
  | answered (answer : Answer)
  deriving DecidableEq, Repr

namespace Registry

def answer (r : Registry) : Query → Answer
  | .contains name => .truth (r.contains name)
  | .get name => .entry (r.get? name)
  | .size => .count r.size
  | .names => .names r.names
  | .entryPoints => .names (r.entryPoints.map Entry.name)
  | .policy => .policy r.policy
  | .finalized => .truth r.finalized
  | .reachable => .reachability r.reachable
  | .sequence live => .sequence (r.sequence live)

def attempt (r : Registry) (registration : Registration) (answer : Outcome) :
    Registry × Outcome :=
  match r.register registration with
  | .ok next => (next, answer)
  | .error error => (r, .refused error)

def perform (r : Registry) : Operation → Registry × Outcome
  | .register registration => r.attempt registration .done
  | .define definition info => r.attempt (.ordinary definition info) (.defined definition)
  | .defineAsm definition info => r.attempt (.asm definition info) (.definedAsm definition)
  | .apply manifest =>
    match manifest.apply r with
    | ⟨next, none⟩ => (next, .done)
    | ⟨next, some error⟩ => (next, .refused error)
  | .extract =>
    let (closed, extraction) := r.extract
    (closed, .extracted extraction)
  | .ask query => (r, .answered (r.answer query))

def afterAll (r : Registry) (operations : List Operation) : Registry :=
  operations.foldl (fun r operation => (r.perform operation).1) r

end Registry

end CompilationUnit
