import CompilationUnit.Entry

/-!
Registries: every function of one compilation unit, in the order in which their names came in. A
replacement takes the place of the entry it replaces and leaves nothing of it. Once the unit was
extracted, nothing can be registered any more.
-/
namespace CompilationUnit

open Json (Value Reader)

inductive Policy
  | overwrite
  | strict
  deriving DecidableEq, Repr

inductive RegistrationError
  | duplicate (name : String)
  | finalized (name : String)
  deriving DecidableEq, Repr

def RegistrationError.message : RegistrationError → String
  | .duplicate name => "Duplicate function: " ++ name
  | .finalized name => "Registry finalized: cannot register " ++ name ++ " after extraction"

def findEntry? (name : String) (entries : List Entry) : Option Entry :=
  entries.find? fun e => e.name == name

def placeEntry (entry : Entry) : List Entry → List Entry
  | [] => [entry]
  | e :: es => if e.name = entry.name then entry :: es else e :: placeEntry entry es

theorem placeEntryNames (entry : Entry) (entries : List Entry) :
    (placeEntry entry entries).map Entry.name =
      if entry.name ∈ entries.map Entry.name then entries.map Entry.name
      else entries.map Entry.name ++ [entry.name] := by
  induction entries with
  | nil => simp [placeEntry]
  | cons e es ih =>
    unfold placeEntry
    split
    · next same => simp [same]
    · next different =>
      simp only [List.map_cons, ih, List.mem_cons, Ne.symm different, false_or]
      split <;> simp

theorem placeEntryDistinct {entry : Entry} {entries : List Entry}
    (distinct : (entries.map Entry.name).Nodup) :
    ((placeEntry entry entries).map Entry.name).Nodup := by
  rw [placeEntryNames]
  split
  · exact distinct
  · next fresh =>
    refine List.nodup_append.mpr ⟨distinct, by simp, ?_⟩
    intro a member b single
    cases List.mem_singleton.mp single
    exact fun same => fresh (same ▸ member)

structure Registry where
  entries : List Entry
  policy : Policy
  finalized : Bool
  distinct : (entries.map Entry.name).Nodup
  deriving Repr

namespace Policy

def name : Policy → String
  | .overwrite => "overwrite"
  | .strict => "strict"

def encode (p : Policy) : Value := .string p.name

def reader : Reader Policy :=
  .choice ([.overwrite, .strict].map fun p => (p.name, .nothing p))

end Policy

namespace Registry

def empty (policy : Policy) : Registry := ⟨[], policy, false, List.nodup_nil⟩

instance : Inhabited Registry := ⟨empty .overwrite⟩

def get? (r : Registry) (name : String) : Option Entry := findEntry? name r.entries

def contains (r : Registry) (name : String) : Bool := (r.get? name).isSome

def size (r : Registry) : Nat := r.entries.length

def names (r : Registry) : List String := r.entries.map Entry.name

def entryPoints (r : Registry) : List Entry := r.entries.filter Entry.isEntryPoint

def finalize (r : Registry) : Registry := { r with finalized := true }

def insert (r : Registry) (entry : Entry) : Except RegistrationError Registry :=
  if r.finalized then .error (.finalized entry.name)
  else if r.contains entry.name ∧ r.policy = .strict then .error (.duplicate entry.name)
  else .ok { r with
    entries := placeEntry entry r.entries
    distinct := placeEntryDistinct r.distinct }

def register (r : Registry) (registration : Registration) : Except RegistrationError Registry :=
  r.insert (.ofRegistration registration)

end Registry

end CompilationUnit
