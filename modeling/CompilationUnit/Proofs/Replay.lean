import CompilationUnit.Proofs.History

/-! Replays of manifests. Whether a registration is refused depends on the registry the replay began
with and on the names that came before it in the manifest; a replay stops at the first one that is, and
has done until then what the registrations before it do one by one. -/
namespace CompilationUnit
namespace Registry

variable {r next : Registry}

def refusal? (r : Registry) (before : List Registration) (registration : Registration) :
    Option RegistrationError :=
  if r.finalized then some (.finalized registration.name)
  else if r.policy = .strict ∧
      (registration.name ∈ r.names ∨ registration.name ∈ before.map Registration.name) then
    some (.duplicate registration.name)
  else none

def Admits (r : Registry) (registrations : List Registration) : Prop :=
  ∀ before registration after, registrations = before ++ registration :: after →
    r.refusal? before registration = none

def storeAll (r : Registry) (registrations : List Registration) : Registry :=
  r.afterAll (registrations.map .register)

theorem registerRefused (r : Registry) (registration : Registration) (error : RegistrationError) :
    r.register registration = .error error ↔ r.refusal? [] registration = some error := by
  unfold refusal?
  cases closed : r.finalized with
  | true => simp [registerClosed closed]
  | false =>
    rw [registerOpen closed]
    simp only [Bool.false_eq_true, if_false, List.map_nil, List.not_mem_nil, or_false,
      and_comm (a := r.policy = .strict)]
    split <;> simp

theorem refusalBehind {first : Registration} (stored : r.register first = .ok next)
    (before : List Registration) (registration : Registration) :
    next.refusal? before registration = r.refusal? (first :: before) registration := by
  obtain ⟨_, _, _, samePolicy, stillOpen⟩ := insertSource stored
  have known : registration.name ∈ next.names ↔
      registration.name ∈ r.names ∨ registration.name = first.name := by
    rw [registeredNames stored]
    split
    · rename_i old
      refine ⟨.inl, ?_⟩
      rintro (member | same)
      · exact member
      · exact same ▸ old
    · simp
  unfold refusal?
  simp only [samePolicy, stillOpen, known, List.map_cons, List.mem_cons, or_assoc]

theorem storeAllBehind {first : Registration} (stored : r.register first = .ok next)
    (others : List Registration) : r.storeAll (first :: others) = next.storeAll others := by
  have performed : (r.perform (.register first)).1 = next := by
    change (r.attempt first .done).1 = next
    unfold attempt
    rw [stored]
  unfold storeAll afterAll
  rw [List.map_cons, List.foldl_cons, performed]

theorem admitsNothing (r : Registry) : r.Admits [] := by
  intro before registration after split
  simp at split

theorem admitsBehind {first : Registration} (stored : r.register first = .ok next)
    (others : List Registration) : r.Admits (first :: others) ↔ next.Admits others := by
  refine ⟨?_, ?_⟩
  · intro admits before registration after split
    rw [refusalBehind stored]
    exact admits (first :: before) registration after (by rw [split]; rfl)
  · intro admits before registration after split
    rcases List.cons_eq_append_iff.mp split with ⟨rfl, same⟩ | ⟨between, rfl, rest⟩
    · cases same
      refine Option.eq_none_iff_forall_ne_some.mpr fun error refused => ?_
      rw [(registerRefused r _ error).mpr refused] at stored
      contradiction
    · rw [← refusalBehind stored]
      exact admits between registration after rest

def StopsAt (r : Registry) (registrations : List Registration) (left : Registry)
    (error : RegistrationError) : Prop :=
  ∃ before failed after, registrations = before ++ failed :: after ∧ r.Admits before ∧
    r.refusal? before failed = some error ∧ left = r.storeAll before

theorem stopsAtFirst {first : Registration} {error : RegistrationError}
    (refused : r.register first = .error error) (others : List Registration) (left : Registry)
    (cause : RegistrationError) :
    r.StopsAt (first :: others) left cause ↔ r = left ∧ error = cause := by
  have refusal := (registerRefused r first error).mp refused
  refine ⟨?_, ?_⟩
  · rintro ⟨before, failed, after, split, admits, fails, rfl⟩
    rcases List.cons_eq_append_iff.mp split with ⟨rfl, same⟩ | ⟨between, rfl, rest⟩
    · cases same
      exact ⟨rfl, Option.some.inj (refusal.symm.trans fails)⟩
    · have admitted := admits [] first between rfl
      rw [refusal] at admitted
      contradiction
  · rintro ⟨rfl, rfl⟩
    exact ⟨[], first, others, rfl, admitsNothing r, refusal, rfl⟩

theorem stopsAtBehind {first : Registration} (stored : r.register first = .ok next)
    (others : List Registration) (left : Registry) (error : RegistrationError) :
    r.StopsAt (first :: others) left error ↔ next.StopsAt others left error := by
  refine ⟨?_, ?_⟩
  · rintro ⟨before, failed, after, split, admits, fails, rfl⟩
    rcases List.cons_eq_append_iff.mp split with ⟨rfl, same⟩ | ⟨between, rfl, rest⟩
    · cases same
      rw [(registerRefused r _ error).mpr fails] at stored
      contradiction
    · exact ⟨between, failed, after, rest, (admitsBehind stored between).mp admits,
        (refusalBehind stored between failed).trans fails, storeAllBehind stored between⟩
  · rintro ⟨before, failed, after, rfl, admits, fails, rfl⟩
    exact ⟨first :: before, failed, after, rfl, (admitsBehind stored before).mpr admits,
      (refusalBehind stored before failed).symm.trans fails, (storeAllBehind stored before).symm⟩

theorem replayIff (registrations : List Registration) (r left : Registry) :
    (∀ error, r.replay registrations = ⟨left, some error⟩ ↔ r.StopsAt registrations left error) ∧
    (r.replay registrations = ⟨left, none⟩ ↔
      r.Admits registrations ∧ left = r.storeAll registrations) := by
  -- The first registration is refused, or the rest is replayed into the registry it was stored in.
  induction registrations generalizing r with
  | nil =>
    refine ⟨fun error => ?_, ?_⟩
    · simp [replay, StopsAt]
    · simp only [replay, Replay.mk.injEq, and_true, admitsNothing, true_and]
      exact eq_comm
  | cons first others ih =>
    cases outcome : r.register first with
    | ok next =>
      have replayed : r.replay (first :: others) = next.replay others := by
        rw [replay, outcome]
      obtain ⟨stops, ends⟩ := ih next
      rw [replayed]
      refine ⟨fun error => ?_, ?_⟩
      · rw [stops error, stopsAtBehind outcome]
      · rw [ends, admitsBehind outcome, storeAllBehind outcome]
    | error error =>
      have replayed : r.replay (first :: others) = ⟨r, some error⟩ := by
        rw [replay, outcome]
      rw [replayed]
      refine ⟨fun cause => ?_, ?_⟩
      · rw [stopsAtFirst outcome]
        simp
      · have refusal := (registerRefused r first error).mp outcome
        refine ⟨?_, ?_⟩
        · intro ended
          simp at ended
        · rintro ⟨admits, _⟩
          have admitted := admits [] first others rfl
          rw [refusal] at admitted
          contradiction

theorem admitsSnoc (r : Registry) (registrations : List Registration) (last : Registration) :
    r.Admits (registrations ++ [last]) ↔
      r.Admits registrations ∧ r.refusal? registrations last = none := by
  refine ⟨fun admits => ⟨fun before registration after split => ?_, ?_⟩, ?_⟩
  · exact admits before registration (after ++ [last]) (by simp [split])
  · exact admits registrations last [] rfl
  · rintro ⟨admits, admitted⟩ before registration after split
    rcases List.eq_nil_or_concat after with rfl | ⟨between, other, rfl⟩
    · obtain ⟨rfl, same⟩ := List.append_inj' split rfl
      cases same
      exact admitted
    · have parted : registrations ++ [last] = (before ++ registration :: between) ++ [other] := by
        simpa using split
      exact admits before registration between (List.append_inj' parted rfl).1

theorem emptyAdmits (policy : Policy) (registrations : List Registration) :
    (empty policy).Admits registrations ↔
      policy = .overwrite ∨ (registrations.map Registration.name).Nodup := by
  induction registrations using List.reverseRecOn with
  | nil => simp [admitsNothing]
  | append_singleton registrations last ih =>
    rw [admitsSnoc, ih]
    cases policy with
    | overwrite => simp [refusal?, empty]
    | strict => simp [refusal?, empty, names, List.nodup_append']

theorem builtIff (m : Manifest) (built : Registry) :
    m.registry = .ok built ↔ m.apply (.empty m.policy) = ⟨built, none⟩ := by
  unfold Manifest.registry
  rcases m.apply (.empty m.policy) with ⟨left, _ | error⟩ <;> simp

theorem appliedToFirstRefusal (m : Manifest) (r : Registry) :
    (∀ left error, m.apply r = ⟨left, some error⟩ ↔ ∃ before failed after,
      m.functions = before ++ failed :: after ∧
      (∀ done earlier later, before = done ++ earlier :: later → r.refusal? done earlier = none) ∧
      r.refusal? before failed = some error ∧ left = r.afterAll (before.map .register)) ∧
    (∀ left, m.apply r = ⟨left, none⟩ ↔
      (∀ before registration after, m.functions = before ++ registration :: after →
        r.refusal? before registration = none) ∧ left = r.afterAll (m.functions.map .register)) ∧
    ((∃ built, m.registry = .ok built) ↔
      m.policy = .overwrite ∨ (m.functions.map Registration.name).Nodup) := by
  refine ⟨fun left => (replayIff m.functions r left).1, fun left => (replayIff m.functions r left).2, ?_⟩
  have ends (built : Registry) := (builtIff m built).trans (replayIff m.functions (.empty m.policy) built).2
  rw [← emptyAdmits]
  refine ⟨?_, ?_⟩
  · rintro ⟨built, done⟩
    exact ((ends built).mp done).1
  · intro admits
    exact ⟨_, (ends _).mpr ⟨admits, rfl⟩⟩

end Registry
end CompilationUnit
