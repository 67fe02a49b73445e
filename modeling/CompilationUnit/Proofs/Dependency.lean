import CompilationUnit.Extraction
import Mathlib.Data.List.Nodup
import Mathlib.Logic.Relation

/-! Dependencies of a registry as relations between names, said without any search. A path from an
entry point steps on registered names only; the live edges join two registered live functions. -/
namespace CompilationUnit
namespace Registry
open Relation

def Depends (r : Registry) (caller callee : String) : Prop :=
  ∃ e ∈ r.entries, e.name = caller ∧ callee ∈ e.dependencies.names

def Leads (r : Registry) (caller callee : String) : Prop :=
  r.Depends caller callee ∧ callee ∈ r.names

def Reached (r : Registry) (name : String) : Prop :=
  ∃ e ∈ r.entries, e.isEntryPoint = true ∧ ReflTransGen r.Leads e.name name

def LiveEdge (r : Registry) (live : List String) (caller callee : String) : Prop :=
  r.Leads caller callee ∧ caller ∈ live ∧ callee ∈ live

variable {r : Registry} {live : List String}

theorem entryOfName {e other : Entry} (left : e ∈ r.entries) (right : other ∈ r.entries)
    (same : e.name = other.name) : e = other :=
  List.inj_on_of_nodup_map r.distinct left right same

theorem entriesOnce (r : Registry) : r.entries.Nodup := List.Nodup.of_map Entry.name r.distinct

theorem startsOnce (r : Registry) (live : List String) : (r.starts live).Nodup := (entriesOnce r).filter _

theorem nameRegistered {e : Entry} (member : e ∈ r.entries) : e.name ∈ r.names :=
  List.mem_map.mpr ⟨e, member, rfl⟩

theorem getIff {name : String} {e : Entry} :
    r.get? name = some e ↔ e ∈ r.entries ∧ e.name = name := by
  refine ⟨?_, ?_⟩
  · intro found
    exact ⟨List.mem_of_find?_eq_some found, by simpa using List.find?_some found⟩
  · intro stored
    obtain ⟨member, rfl⟩ := stored
    cases found : r.get? e.name with
    | none =>
      have absent := List.find?_eq_none.mp found e member
      simp at absent
    | some other =>
      have same : other.name = e.name := by simpa using List.find?_some found
      rw [entryOfName (List.mem_of_find?_eq_some found) member same]

theorem dependsIff {e : Entry} (member : e ∈ r.entries) (callee : String) :
    r.Depends e.name callee ↔ callee ∈ e.dependencies.names := by
  refine ⟨?_, ?_⟩
  · intro depends
    obtain ⟨other, present, same, stored⟩ := depends
    rwa [← entryOfName present member same]
  · intro stored
    exact ⟨e, member, rfl, stored⟩

theorem callerRegistered {caller callee : String} (depends : r.Depends caller callee) :
    caller ∈ r.names := by
  obtain ⟨e, member, rfl, _⟩ := depends
  exact nameRegistered member

theorem startsIff {e : Entry} : e ∈ r.starts live ↔ e ∈ r.entries ∧ e.name ∈ live := by
  simp [starts]

theorem startNamesIff {name : String} :
    name ∈ (r.starts live).map Entry.name ↔ name ∈ r.names ∧ name ∈ live := by
  refine ⟨?_, ?_⟩
  · intro member
    obtain ⟨e, start, rfl⟩ := List.mem_map.mp member
    obtain ⟨present, isLive⟩ := startsIff.mp start
    exact ⟨nameRegistered present, isLive⟩
  · intro both
    obtain ⟨e, present, rfl⟩ := List.mem_map.mp both.1
    exact List.mem_map.mpr ⟨e, startsIff.mpr ⟨present, both.2⟩, rfl⟩

theorem reachedRegistered {name : String} (reached : r.Reached name) : name ∈ r.names := by
  obtain ⟨e, member, _, path⟩ := reached
  cases path with
  | refl => exact nameRegistered member
  | tail before last => exact last.2

end Registry
end CompilationUnit
