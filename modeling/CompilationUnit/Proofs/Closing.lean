import CompilationUnit.Proofs.Agreement
import CompilationUnit.Proofs.Operations

/-! Registrations that are refused, and registries that were extracted. What an extraction finds depends
on the entries alone, and a closed registry never changes, so it gives the same extraction for ever. -/
namespace CompilationUnit

def Operation.registration? : Operation → Option Registration
  | .register registration => some registration
  | .define definition info => some (.ordinary definition info)
  | .defineAsm definition info => some (.asm definition info)
  | .apply _ => none
  | .extract => none
  | .ask _ => none

theorem ofRegistrationName (registration : Registration) :
    (Entry.ofRegistration registration).name = registration.name := by
  cases registration <;> rfl

namespace Registry

variable {r other : Registry}

theorem getSame (same : r.entries = other.entries) (name : String) : r.get? name = other.get? name := by
  unfold get?
  rw [same]

theorem searchStepSame (same : r.entries = other.entries) (s : Search) : s.step r = s.step other := by
  have follow : Search.follow r = Search.follow other := by
    funext caller s dependency
    unfold Search.follow contains
    rw [getSame same]
  unfold Search.step
  simp only [getSame same, follow]

theorem reachableSame (same : r.entries = other.entries) : r.reachable = other.reachable := by
  have runs (s : Search) : s.run r = s.run other :=
    Search.runAgrees (fun _ _ => trivial) (fun _ => searchStepSame same _) trivial
  unfold reachable Search.start entryPoints
  rw [same, runs]

theorem startsSame (same : r.entries = other.entries) (live : List String) :
    r.starts live = other.starts live := by
  unfold starts
  rw [same]

theorem extractionSame (same : r.entries = other.entries) : r.extraction = other.extraction := by
  unfold extraction names
  rw [same, reachableSame same]
  simp only [sequenceSame (startsSame same _)]

theorem performRegistration {operation : Operation} {registration : Registration}
    (registers : operation.registration? = some registration) :
    ∃ answer, r.perform operation = r.attempt registration answer ∧ ∀ error, answer ≠ .refused error := by
  cases operation with
  | register other =>
    cases registers
    exact ⟨.done, rfl, by simp⟩
  | define definition info =>
    cases registers
    exact ⟨.defined definition, rfl, by simp⟩
  | defineAsm definition info =>
    cases registers
    exact ⟨.definedAsm definition, rfl, by simp⟩
  | apply manifest => contradiction
  | extract => contradiction
  | ask query => contradiction

theorem refusedUnchanged {operation : Operation} {registration : Registration} {error : RegistrationError}
    (registers : operation.registration? = some registration)
    (refused : (r.perform operation).2 = .refused error) :
    (r.perform operation).1 = r ∧ r.register registration = .error error := by
  obtain ⟨answer, performed, answers⟩ := performRegistration (r := r) registers
  rw [performed] at refused ⊢
  unfold attempt at refused ⊢
  split at refused
  · exact absurd refused (answers error)
  · rename_i other failed
    cases refused
    rw [failed]
    exact ⟨rfl, rfl⟩

theorem replayStopped {registrations : List Registration} {next : Registry} {error : RegistrationError}
    (stopped : r.replay registrations = ⟨next, some error⟩) :
    ∃ done failed others, registrations = done ++ failed :: others ∧
      r.replay done = ⟨next, none⟩ ∧ next.register failed = .error error := by
  induction registrations generalizing r with
  | nil => simp [replay] at stopped
  | cons registration others ih =>
    unfold replay at stopped
    split at stopped
    · rename_i stored registered
      obtain ⟨done, failed, left, split, replayed, fails⟩ := ih stopped
      refine ⟨registration :: done, failed, left, by rw [split]; rfl, ?_, fails⟩
      unfold replay
      rw [registered]
      exact replayed
    · rename_i cause fails
      cases stopped
      exact ⟨[], registration, others, rfl, rfl, fails⟩

theorem applyOutcome {manifest : Manifest} {error : RegistrationError}
    (refused : (r.perform (.apply manifest)).2 = .refused error) :
    r.replay manifest.functions = ⟨(r.perform (.apply manifest)).1, some error⟩ := by
  unfold perform Manifest.apply at refused ⊢
  dsimp only at refused ⊢
  split at refused
  · contradiction
  · rename_i next cause replayed
    cases refused
    rw [replayed]

theorem registerClosed (closed : r.finalized = true) (registration : Registration) :
    r.register registration = .error (.finalized registration.name) := by
  unfold register insert
  rw [closed, ofRegistrationName]
  rfl

theorem attemptClosed (closed : r.finalized = true) (registration : Registration) (answer : Outcome) :
    r.attempt registration answer = (r, .refused (.finalized registration.name)) := by
  unfold attempt
  rw [registerClosed closed]

theorem performClosed (closed : r.finalized = true) {operation : Operation} {registration : Registration}
    (registers : operation.registration? = some registration) :
    r.perform operation = (r, .refused (.finalized registration.name)) := by
  obtain ⟨answer, performed, _⟩ := performRegistration (r := r) registers
  rw [performed, attemptClosed closed]

theorem replayClosed (closed : r.finalized = true) (registrations : List Registration) :
    r.replay registrations =
      ⟨r, registrations.head?.map fun first => .finalized first.name⟩ := by
  cases registrations with
  | nil => rfl
  | cons first others =>
    unfold replay
    rw [registerClosed closed]
    rfl

theorem applyClosed (closed : r.finalized = true) (manifest : Manifest) :
    r.perform (.apply manifest) = (r, match manifest.functions with
      | [] => .done
      | first :: _ => .refused (.finalized first.name)) := by
  unfold perform Manifest.apply
  dsimp only
  rw [replayClosed closed]
  cases manifest.functions <;> rfl

theorem stepClosed (closed : r.finalized = true) (operation : Operation) :
    (r.perform operation).1 = r := by
  cases operation with
  | register registration => exact congrArg Prod.fst (attemptClosed closed registration .done)
  | define definition info => exact congrArg Prod.fst (attemptClosed closed _ _)
  | defineAsm definition info => exact congrArg Prod.fst (attemptClosed closed _ _)
  | apply manifest => exact congrArg Prod.fst (applyClosed closed manifest)
  -- Closing a second time stores the flag that is stored already.
  | extract =>
    change { r with finalized := true } = r
    rw [← closed]
  | ask query => rfl

theorem runClosed (closed : r.finalized = true) (operations : List Operation) :
    r.afterAll operations = r := by
  induction operations with
  | nil => rfl
  | cons operation operations ih =>
    change ((r.perform operation).1).afterAll operations = r
    rw [stepClosed closed, ih]

theorem afterExtract (r : Registry) (before after : List Operation) :
    r.afterAll (before ++ .extract :: after) = (r.afterAll before).finalize := by
  unfold afterAll
  rw [List.foldl_append, List.foldl_cons]
  exact runClosed rfl after

theorem extractedForGood (r : Registry) (before after : List Operation) :
    (∀ operation registration error, operation.registration? = some registration →
      ((r.afterAll before).perform operation).2 = .refused error →
      ((r.afterAll before).perform operation).1 = r.afterAll before) ∧
    (∀ manifest error, ((r.afterAll before).perform (.apply manifest)).2 = .refused error →
      ∃ done failed others, manifest.functions = done ++ failed :: others ∧
        (r.afterAll before).replay done = ⟨((r.afterAll before).perform (.apply manifest)).1, none⟩ ∧
        ((r.afterAll before).perform (.apply manifest)).1.register failed = .error error) ∧
    (r.afterAll (before ++ .extract :: after)).finalized = true ∧
    (r.afterAll (before ++ .extract :: after)).entries = (r.afterAll before).entries ∧
    (r.afterAll (before ++ .extract :: after)).policy = (r.afterAll before).policy ∧
    (∀ operation registration, operation.registration? = some registration →
      ((r.afterAll (before ++ .extract :: after)).perform operation).2 =
        .refused (.finalized registration.name)) ∧
    (∀ manifest first others, manifest.functions = first :: others →
      ((r.afterAll (before ++ .extract :: after)).perform (.apply manifest)).2 =
        .refused (.finalized first.name)) ∧
    ((r.afterAll (before ++ .extract :: after)).perform .extract).2 =
      ((r.afterAll before).perform .extract).2 := by
  rw [afterExtract]
  refine ⟨?_, ?_, rfl, rfl, rfl, ?_, ?_, ?_⟩
  · intro operation registration error registers refused
    exact (refusedUnchanged registers refused).1
  · intro manifest error refused
    exact replayStopped (applyOutcome refused)
  · intro operation registration registers
    rw [performClosed rfl registers]
  · intro manifest first others functions
    rw [applyClosed rfl, functions]
  · exact congrArg Outcome.extracted (extractionSame rfl)

theorem strictNameRefusedAsClosed :
    ((Registry.empty .strict).afterAll [.register (.placeholder "f" .default), .extract]).contains "f" =
        true ∧
    ((((Registry.empty .strict).afterAll
        ([.register (.placeholder "f" .default)] ++ .extract :: [])).perform
          (.register (.placeholder "f" .default))).2 = .refused (.finalized "f")) :=
  ⟨rfl, (extractedForGood (.empty .strict) [.register (.placeholder "f" .default)] []).2.2.2.2.2.1
    _ (.placeholder "f" .default) rfl⟩

end Registry
end CompilationUnit
