import CompilationUnit.Proofs.Closing
import CompilationUnit.Proofs.Dependency
import Mathlib.Data.List.Induction

/-! Registries as histories of registrations: the names stand in the order of their first registration,
and the entry of a name is built from one registration alone, the last or the first one of the name as
the policy says. -/
namespace CompilationUnit

def Policy.kept? (policy : Policy) (registrations : List Registration) (name : String) :
    Option Registration :=
  match policy with
  | .overwrite => registrations.reverse.find? fun registration => registration.name == name
  | .strict => registrations.find? fun registration => registration.name == name

theorem keptIff {policy : Policy} {registrations : List Registration} {name : String} :
    (policy.kept? registrations name).isSome ↔ name ∈ registrations.map Registration.name := by
  cases policy <;> simp [Policy.kept?, List.find?_isSome]

theorem keptOverwrite (registrations : List Registration) (registration : Registration) (name : String) :
    Policy.overwrite.kept? (registrations ++ [registration]) name =
      if registration.name = name then some registration
      else Policy.overwrite.kept? registrations name := by
  simp only [Policy.kept?, List.reverse_append, List.reverse_singleton, List.singleton_append]
  by_cases same : registration.name = name
  · simp [same]
  · have other : (registration.name == name) = false := by simpa using same
    simp [other, same]

theorem keptStrict (registrations : List Registration) (registration : Registration) (name : String) :
    Policy.strict.kept? (registrations ++ [registration]) name =
      if registration.name = name ∧ name ∉ registrations.map Registration.name then some registration
      else Policy.strict.kept? registrations name := by
  have keptBefore : (Policy.strict.kept? registrations name).isSome ↔ _ := keptIff
  simp only [Policy.kept?, List.find?_append, List.find?_singleton]
  by_cases known : name ∈ registrations.map Registration.name
  · obtain ⟨kept, same⟩ := Option.isSome_iff_exists.mp (keptBefore.mpr known)
    rw [Policy.kept?] at same
    simp [same, known]
  · have missing : registrations.find? (fun registration => registration.name == name) = none := by
      simpa [Policy.kept?] using mt keptBefore.mp known
    by_cases same : registration.name = name <;> simp [missing, known, same]

theorem findPlaced (entry : Entry) (entries : List Entry) (name : String) :
    findEntry? name (placeEntry entry entries) =
      if entry.name = name then some entry else findEntry? name entries := by
  induction entries with
  | nil => by_cases same : entry.name = name <;> simp [placeEntry, findEntry?, same]
  | cons e entries ih =>
    unfold placeEntry
    split
    · rename_i replaced
      by_cases same : entry.name = name <;> simp [replaced, findEntry?, same]
    · rename_i different
      unfold findEntry? at ih ⊢
      rw [List.find?_cons, List.find?_cons, ih]
      by_cases same : entry.name = name
      · have other : (e.name == name) = false := by simpa [same] using different
        simp [other, same]
      · simp [same]

def Registration.body : Registration → Body
  | .ordinary definition _ => .ordinary definition
  | .asm definition _ => .asm definition
  | .placeholder _ _ => .placeholder

def Registration.callees : Registration → List String
  | .ordinary definition _ => definition.directCallees.names
  | .asm _ _ => []
  | .placeholder _ _ => []

/- What an entry holds of the registration it was built from: the calls come first, then what was declared
beside them. -/
structure Entry.BuiltFrom (registration : Registration) (e : Entry) : Prop where
  name : e.name = registration.name
  body : e.body = registration.body
  placement : e.placement = registration.info.placement
  flag : e.isEntryPoint = registration.info.entryPoint
  dependencies : e.dependencies.names = registration.callees ++
    (registration.info.dependsOn.filter fun name => decide (name ∉ registration.callees)).eraseDups

theorem registrationBuilt (registration : Registration) :
    (Entry.ofRegistration registration).BuiltFrom registration := by
  cases registration with
  | ordinary d info => exact ⟨rfl, rfl, rfl, rfl, NameSet.insertAllNames _ _⟩
  | asm d info => exact ⟨rfl, rfl, rfl, rfl, NameSet.insertAllNames .empty _⟩
  | placeholder name info => exact ⟨rfl, rfl, rfl, rfl, NameSet.insertAllNames .empty _⟩

namespace Registry

variable {r next : Registry} {policy : Policy}

theorem registerOpen (unfinished : r.finalized = false) (registration : Registration) :
    r.register registration =
      if registration.name ∈ r.names ∧ r.policy = .strict then .error (.duplicate registration.name)
      else .ok ⟨placeEntry (.ofRegistration registration) r.entries, r.policy, r.finalized,
        placeEntryDistinct r.distinct⟩ := by
  unfold register insert
  simp only [unfinished, ofRegistrationName, containsIff, Bool.false_eq_true, if_false]

theorem registeredGet {registration : Registration} (h : r.register registration = .ok next)
    (name : String) : next.get? name =
      if registration.name = name then some (.ofRegistration registration) else r.get? name := by
  unfold get?
  rw [(insertSource h).2.2.1, findPlaced, ofRegistrationName]

theorem registeredNames {registration : Registration} (h : r.register registration = .ok next) :
    next.names = if registration.name ∈ r.names then r.names else r.names ++ [registration.name] := by
  unfold names
  rw [(insertSource h).2.2.1, placeEntryNames, ofRegistrationName]

def ofHistory (policy : Policy) (registrations : List Registration) : Registry :=
  ofRun policy (registrations.map .register)

theorem ofHistorySnoc (policy : Policy) (registrations : List Registration)
    (registration : Registration) : ofHistory policy (registrations ++ [registration]) =
      ((ofHistory policy registrations).attempt registration .done).1 := by
  simp only [ofHistory, ofRun, afterAll, List.map_append, List.foldl_append, List.map_cons, List.map_nil,
    List.foldl_cons, List.foldl_nil]
  rfl

structure Records (r : Registry) (policy : Policy) (registrations : List Registration) : Prop where
  samePolicy : r.policy = policy
  unfinished : r.finalized = false
  order : r.names = (registrations.map Registration.name).eraseDups
  entry : ∀ name, r.get? name = (policy.kept? registrations name).map Entry.ofRegistration

theorem recordsKnown {registrations : List Registration} (records : r.Records policy registrations)
    {name : String} : name ∈ r.names ↔ name ∈ registrations.map Registration.name := by
  rw [records.order, List.mem_eraseDups]

theorem attemptOutcome {registrations : List Registration} (records : r.Records policy registrations)
    (registration : Registration) : (r.attempt registration .done).2 =
      if policy = .strict ∧ registration.name ∈ registrations.map Registration.name then
        .refused (.duplicate registration.name) else .done := by
  have same : (registration.name ∈ r.names ∧ r.policy = .strict) ↔
      policy = .strict ∧ registration.name ∈ registrations.map Registration.name := by
    rw [recordsKnown records, records.samePolicy, and_comm]
  unfold attempt
  rw [registerOpen records.unfinished]
  by_cases refused : policy = .strict ∧ registration.name ∈ registrations.map Registration.name
  · rw [if_pos refused, if_pos (same.mpr refused)]
  · rw [if_neg refused, if_neg (mt same.mp refused)]

theorem refusedRecords {registrations : List Registration} (records : r.Records .strict registrations)
    {registration : Registration} (known : registration.name ∈ registrations.map Registration.name) :
    r.Records .strict (registrations ++ [registration]) := by
  refine ⟨records.samePolicy, records.unfinished, ?_, ?_⟩
  · rw [records.order, List.map_append, List.map_singleton, eraseDupsSnoc, if_pos known]
  · intro name
    rw [records.entry, keptStrict, if_neg]
    rintro ⟨rfl, fresh⟩
    exact fresh known

theorem storedRecords {registrations : List Registration} (records : r.Records policy registrations)
    {registration : Registration} (h : r.register registration = .ok next) :
    next.Records policy (registrations ++ [registration]) := by
  obtain ⟨_, admitted, _, samePolicy, stillOpen⟩ := insertSource h
  rw [ofRegistrationName, containsIff, recordsKnown records, records.samePolicy] at admitted
  refine ⟨samePolicy.trans records.samePolicy, stillOpen.trans records.unfinished, ?_, ?_⟩
  · rw [registeredNames h, records.order, List.map_append, List.map_singleton, eraseDupsSnoc]
    simp only [List.mem_eraseDups]
  · intro name
    rw [registeredGet h, records.entry]
    cases policy with
    | overwrite =>
      rw [keptOverwrite]
      split <;> rfl
    -- It was stored, so it is the first one of its name.
    | strict =>
      have fresh : registration.name = name → name ∉ registrations.map Registration.name := by
        rintro rfl known
        exact admitted ⟨known, rfl⟩
      rw [keptStrict]
      by_cases same : registration.name = name
      · rw [if_pos same, if_pos ⟨same, fresh same⟩]
        rfl
      · rw [if_neg same, if_neg fun both => same both.1]

theorem attemptRecords {registrations : List Registration} (records : r.Records policy registrations)
    (registration : Registration) :
    (r.attempt registration .done).1.Records policy (registrations ++ [registration]) := by
  unfold attempt
  split
  · rename_i stored
    exact storedRecords records stored
  · rename_i refused
    rw [registerOpen records.unfinished] at refused
    split at refused
    · rename_i known
      rw [recordsKnown records, records.samePolicy] at known
      obtain ⟨known, rfl⟩ := known
      exact refusedRecords records known
    · contradiction

theorem historyRecords (policy : Policy) (registrations : List Registration) :
    (ofHistory policy registrations).Records policy registrations := by
  induction registrations using List.reverseRecOn with
  | nil =>
    refine ⟨rfl, rfl, rfl, fun name => ?_⟩
    cases policy <;> rfl
  | append_singleton registrations registration ih =>
    rw [ofHistorySnoc]
    exact attemptRecords ih registration

theorem entryOwnName {e : Entry} (registered : r.Registered) (member : e ∈ r.entries) :
    (∀ d, e.definition? = some d → d.name = e.name) ∧ ∀ d, e.asm? = some d → d.name = e.name := by
  obtain ⟨registration, rfl⟩ := registered e member
  cases registration <;> simp [Entry.ofRegistration, Entry.definition?, Entry.asm?]

theorem keptBuilt {registrations : List Registration} (records : r.Records policy registrations)
    {name : String} {registration : Registration}
    (kept : policy.kept? registrations name = some registration) :
    ∃ e, r.get? name = some e ∧ e.BuiltFrom registration := by
  have stored : r.get? name = some (.ofRegistration registration) := by rw [records.entry, kept]; rfl
  exact ⟨_, stored, registrationBuilt registration⟩

theorem historyRetold (policy : Policy) (registrations : List Registration) :
    (ofHistory policy registrations).names = (registrations.map Registration.name).eraseDups ∧
    (ofHistory policy registrations).names.Nodup ∧
    (∀ e ∈ (ofHistory policy registrations).entries,
      (ofHistory policy registrations).get? e.name = some e ∧
      (∀ d, e.definition? = some d → d.name = e.name) ∧ ∀ d, e.asm? = some d → d.name = e.name) ∧
    (∀ name, (ofHistory policy registrations).get? name =
      (policy.kept? registrations name).map Entry.ofRegistration) ∧
    (∀ name registration, policy.kept? registrations name = some registration →
      ∃ e, (ofHistory policy registrations).get? name = some e ∧ e.name = name ∧
        e.body = registration.body ∧ e.placement = registration.info.placement ∧
        e.isEntryPoint = registration.info.entryPoint ∧
        e.dependencies.names = registration.callees ++
          (registration.info.dependsOn.filter fun other => decide (other ∉ registration.callees)).eraseDups) ∧
    ∀ before registration after, registrations = before ++ registration :: after →
      ((ofHistory policy before).perform (.register registration)).2 =
        if policy = .strict ∧ registration.name ∈ before.map Registration.name then
          .refused (.duplicate registration.name) else .done := by
  have records := historyRecords policy registrations
  refine ⟨records.order, (ofHistory policy registrations).distinct, ?_, records.entry, ?_, ?_⟩
  · intro e member
    exact ⟨getIff.mpr ⟨member, rfl⟩, entryOwnName (ofRunRegistered policy _) member⟩
  · intro name registration kept
    obtain ⟨e, stored, built⟩ := keptBuilt records kept
    exact ⟨e, stored, (getIff.mp stored).2, built.body, built.placement, built.flag, built.dependencies⟩
  · intro before registration after _
    exact attemptOutcome (historyRecords policy before) registration

/- The replacement of "f" keeps its place before "g" and nothing of the function; a strict registry keeps
the function instead. -/
theorem replacementKeepsPlace :
    ∃ function code, function.body = [.expr (.callName "g" [])] ∧ code.code = "NOP" ∧
      ∀ registrations, registrations = [.ordinary function ⟨some .stdlib, true, ["h", "g"]⟩,
          .placeholder "g" .default, .asm code ⟨some .constants, false, ["k", "k"]⟩] →
        (ofHistory .overwrite registrations).names = ["f", "g"] ∧
        (∃ e, (ofHistory .overwrite registrations).get? "f" = some e ∧ e.body = .asm code ∧
          e.placement = some .constants ∧ e.isEntryPoint = false ∧ e.dependencies.names = ["k"]) ∧
        (∃ e, (ofHistory .strict registrations).get? "f" = some e ∧ e.body = .ordinary function ∧
          e.placement = some .stdlib ∧ e.isEntryPoint = true ∧ e.dependencies.names = ["g", "h"]) ∧
        ((ofHistory .strict (registrations.take 2)).perform
            (.register (.asm code ⟨some .constants, false, ["k", "k"]⟩))).2 =
          .refused (.duplicate "f") := by
  refine ⟨⟨[], "f", [], .unit, _⟩, ⟨[], "f", [], .unit, _⟩, rfl, rfl, ?_⟩
  intro registrations listed
  obtain ⟨order, _, _, _, last, _⟩ := historyRetold .overwrite registrations
  obtain ⟨_, _, _, _, first, outcome⟩ := historyRetold .strict registrations
  subst listed
  obtain ⟨e, stored, _, body, placement, flag, dependencies⟩ := last "f" _ rfl
  obtain ⟨e', stored', _, body', placement', flag', dependencies'⟩ := first "f" _ rfl
  exact ⟨order.trans (by decide), ⟨e, stored, body, placement, flag, dependencies.trans (by decide)⟩,
    ⟨e', stored', body', placement', flag', dependencies'.trans (by decide)⟩,
    (outcome _ _ [] rfl).trans (if_pos (by decide))⟩

end Registry
end CompilationUnit
