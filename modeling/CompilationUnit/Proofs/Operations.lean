import CompilationUnit.Proofs.Occurrence
import CompilationUnit.Registry.Operation

/-! Runs of operations on a registry. Entries come in by registrations alone, so what registrations and
closing keep is kept by every operation, a replay that stops midway included. Every entry of a
registry that was built by operations is the entry of some registration, with its direct callees among
its dependencies. -/
namespace CompilationUnit

theorem placeEntryMember {entry e : Entry} {entries : List Entry}
    (member : e ∈ placeEntry entry entries) : e = entry ∨ e ∈ entries := by
  induction entries with
  | nil => exact .inl (List.mem_singleton.mp member)
  | cons other entries ih =>
    unfold placeEntry at member
    split at member
    · rcases List.mem_cons.mp member with rfl | old
      · exact .inl rfl
      · exact .inr (List.mem_cons_of_mem other old)
    · rcases List.mem_cons.mp member with rfl | later
      · exact .inr List.mem_cons_self
      · rcases ih later with same | old
        · exact .inl same
        · exact .inr (List.mem_cons_of_mem other old)

namespace Registry

variable {r next : Registry}

theorem insertSource {entry : Entry} (h : r.insert entry = .ok next) :
    r.finalized = false ∧ ¬ (r.contains entry.name = true ∧ r.policy = .strict) ∧
      next.entries = placeEntry entry r.entries ∧ next.policy = r.policy ∧ next.finalized = r.finalized := by
  unfold insert at h
  split at h
  · contradiction
  rename_i unfinished
  split at h
  · contradiction
  rename_i admitted
  cases h
  exact ⟨by simpa using unfinished, admitted, rfl, rfl, rfl⟩

section Kept

variable {P : Registry → Prop}
  (registers : ∀ {r next : Registry} {registration}, r.register registration = .ok next → P r → P next)
  (closes : ∀ {r : Registry}, P r → P r.finalize)
include registers

theorem attemptKeeps (registration : Registration) (answer : Outcome) (kept : P r) :
    P (r.attempt registration answer).1 := by
  unfold attempt
  split
  · rename_i stored
    exact registers stored kept
  · exact kept

theorem replayKeeps (registrations : List Registration) (kept : P r) :
    P (r.replay registrations).registry := by
  induction registrations generalizing r with
  | nil => exact kept
  | cons registration others ih =>
    unfold replay
    split
    · rename_i stored
      exact ih (registers stored kept)
    · exact kept

include closes

theorem performKeeps (operation : Operation) (kept : P r) : P (r.perform operation).1 := by
  cases operation with
  | register registration => exact attemptKeeps registers registration .done kept
  | define definition info => exact attemptKeeps registers _ _ kept
  | defineAsm definition info => exact attemptKeeps registers _ _ kept
  | apply manifest =>
    have replayed := replayKeeps registers manifest.functions kept
    unfold perform
    dsimp only
    split <;> rename_i same <;> rw [Manifest.apply] at same <;> rwa [same] at replayed
  | extract => exact closes kept
  | ask query => exact kept

theorem afterAllKeeps (operations : List Operation) (kept : P r) : P (r.afterAll operations) := by
  induction operations generalizing r with
  | nil => exact kept
  | cons operation operations ih => exact ih (performKeeps registers closes operation kept)

end Kept

def Registered (r : Registry) : Prop :=
  ∀ e ∈ r.entries, ∃ registration, e = .ofRegistration registration

theorem registerRegistered {registration : Registration}
    (h : r.register registration = .ok next) (registered : r.Registered) : next.Registered := by
  intro e member
  rw [(insertSource h).2.2.1] at member
  rcases placeEntryMember member with same | old
  · exact ⟨registration, same⟩
  · exact registered e old

def ofRun (policy : Policy) (operations : List Operation) : Registry :=
  (Registry.empty policy).afterAll operations

theorem ofRunRegistered (policy : Policy) (operations : List Operation) :
    (ofRun policy operations).Registered :=
  afterAllKeeps registerRegistered id operations (by simp [Registered, Registry.empty])

theorem callStored {e : Entry} {d : Definition} {callee : String} (registered : r.Registered)
    (member : e ∈ r.entries) (ordinary : e.body = .ordinary d) (calls : d.Calls callee) :
    callee ∈ e.dependencies.names := by
  obtain ⟨registration, rfl⟩ := registered e member
  cases registration with
  | ordinary definition info =>
    cases ordinary
    exact insertAllIff.mpr (.inl (directCalleesIff.mpr calls))
  | asm definition info => contradiction
  | placeholder name info => contradiction

end Registry
end CompilationUnit
