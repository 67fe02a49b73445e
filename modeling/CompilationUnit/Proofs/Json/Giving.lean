import CompilationUnit.Json.Choice

/-! Values that readers give. A value read from any text was put together from values that the readers of
its parts gave, or supplied; each container around a part took one of the levels that were left. -/
namespace CompilationUnit.Json

def Reader.Gives (r : Reader α) (levels : Nat) (a : α) : Prop :=
  ∃ holding outline, r holding (levels + 1) outline = .ok a

theorem bindOk {result : Except Fault α} {next : α → Except Fault β} {b : β}
    (ok : (result >>= next) = .ok b) : ∃ a, result = .ok a ∧ next a = .ok b := by
  cases result with
  | error fault => contradiction
  | ok a => exact ⟨a, rfl, ok⟩

theorem mapOk {result : Except Fault α} {f : α → β} {b : β} (ok : result.map f = .ok b) :
    ∃ a, result = .ok a ∧ b = f a := by
  cases result with
  | error fault => contradiction
  | ok a => exact ⟨a, rfl, (Except.ok.inj ok).symm⟩

theorem enterOk {levels inner : Nat} (ok : enter (levels + 1) = .ok inner) :
    ∃ left, levels = left + 1 ∧ inner = left + 1 := by
  cases levels with
  | zero => contradiction
  | succ left => exact ⟨left, rfl, (Except.ok.inj ok).symm⟩

variable {levels : Nat}

theorem mapGives {r : Reader α} {f : α → β} {b : β} (gives : (r.map f).Gives levels b) :
    ∃ a, r.Gives levels a ∧ b = f a := by
  obtain ⟨holding, outline, ok⟩ := gives
  obtain ⟨a, read, same⟩ := mapOk ok
  exact ⟨a, ⟨holding, outline, read⟩, same⟩

theorem optionalGives {r : Reader α} {value : Option α} (gives : r.optional.Gives levels value) :
    ∀ a, value = some a → r.Gives levels a := by
  obtain ⟨holding, outline, ok⟩ := gives
  rintro a rfl
  unfold Reader.optional at ok
  split at ok
  · cases ok
  · contradiction
  · obtain ⟨_, read, same⟩ := mapOk ok
    cases same
    exact ⟨_, _, read⟩

theorem itemsGive {r : Reader α} {holding : Holding} {stop : ListEnd} {outlines : List Outline}
    {as : List α} (ok : r.items holding (levels + 1) stop outlines = .ok as) :
    ∀ a ∈ as, r.Gives levels a := by
  induction outlines generalizing as with
  | nil =>
    obtain ⟨_, _, empty⟩ := bindOk ok
    cases empty
    nofun
  | cons outline outlines ih =>
    obtain ⟨first, read, ok⟩ := bindOk ok
    obtain ⟨others, later, same⟩ := bindOk ok
    cases same
    intro a member
    rcases List.mem_cons.mp member with rfl | member
    · exact ⟨_, _, read⟩
    · exact ih later a member

theorem listGives {r : Reader α} {as : List α} (gives : r.list.Gives levels as) :
    ∃ inner, levels = inner + 1 ∧ ∀ a ∈ as, r.Gives inner a := by
  obtain ⟨holding, outline, ok⟩ := gives
  unfold Reader.list at ok
  split at ok
  · obtain ⟨depth, entered, ok⟩ := bindOk ok
    obtain ⟨inner, left, rfl⟩ := enterOk entered
    exact ⟨inner, left, itemsGive ok⟩
  · contradiction

def Fields.Made (levels : Nat) : (fields : Fields τ) → Row τ → Prop
  | .nil, _ => True
  | .cons field rest, (a, row) =>
    (field.read.Gives levels a ∨ field.default = some a) ∧ rest.Made levels row

def Fields.Drafted (levels : Nat) : (fields : Fields τ) → Draft τ → Prop
  | .nil, _ => True
  | .cons field rest, (value, others) =>
    (∀ a, value = some a → field.read.Gives levels a) ∧ rest.Drafted levels others

theorem blankDrafted (fields : Fields τ) : fields.Drafted levels fields.blank := by
  induction fields with
  | nil => trivial
  | cons field rest ih => exact ⟨nofun, ih⟩

theorem putDrafted {fields : Fields τ} {key : String} {holding : Holding} {outline : Outline}
    {draft next : Draft τ} (drafted : fields.Drafted levels draft)
    (put : fields.put key (fun r => r holding (levels + 1) outline) draft = some (.ok next)) :
    fields.Drafted levels next := by
  induction fields with
  | nil => contradiction
  | cons field rest ih =>
    obtain ⟨value, others⟩ := draft
    unfold Fields.put at put
    split at put
    · obtain ⟨a, read, rfl⟩ := mapOk (Option.some.inj put)
      refine ⟨?_, drafted.2⟩
      rintro _ ⟨⟩
      exact ⟨_, _, read⟩
    · obtain ⟨result, later, mapped⟩ := Option.map_eq_some_iff.mp put
      obtain ⟨others, rfl, rfl⟩ := mapOk mapped
      exact ⟨drafted.1, ih drafted.2 later⟩

theorem endMembersOk {fields : Fields τ} {stop : ObjectEnd} {draft last : Draft τ}
    (ok : fields.endMembers draft stop = .ok last) : last = draft := by
  have closed : (refuse stop.fault? >>= fun _ => pure draft) = .ok last := by
    unfold Fields.endMembers at ok
    split at ok
    · obtain ⟨_, _, ok⟩ := bindOk ok
      obtain ⟨_, _, ok⟩ := bindOk ok
      exact ok
    · exact ok
  obtain ⟨_, _, same⟩ := bindOk closed
  exact (Except.ok.inj same).symm

theorem membersDrafted {fields : Fields τ} {holding : Holding} {stop : ObjectEnd}
    {members : List (Quoted × Outline)} {draft last : Draft τ} (drafted : fields.Drafted levels draft)
    (ok : fields.readMembers holding (levels + 1) stop draft members = .ok last) :
    fields.Drafted levels last := by
  induction members generalizing draft with
  | nil =>
    cases endMembersOk ok
    exact drafted
  | cons member members ih =>
    obtain ⟨key, value⟩ := member
    rw [Fields.readMembers] at ok
    obtain ⟨name, _, ok⟩ := bindOk ok
    obtain ⟨_, _, ok⟩ := bindOk ok
    split at ok
    · rename_i result put
      obtain ⟨next, rfl, ok⟩ := bindOk ok
      exact ih (putDrafted drafted put) ok
    · obtain ⟨_, _, ok⟩ := bindOk ok
      exact ih drafted ok

theorem completeMade {fields : Fields τ} {draft : Draft τ} {row : Row τ}
    (drafted : fields.Drafted levels draft) (ok : fields.complete draft = .ok row) :
    fields.Made levels row := by
  induction fields with
  | nil => trivial
  | cons field rest ih =>
    obtain ⟨value, others⟩ := draft
    unfold Fields.complete at ok
    split at ok
    · rename_i a held
      obtain ⟨row, later, same⟩ := bindOk ok
      cases same
      refine ⟨?_, ih drafted.2 later⟩
      cases value with
      | none => exact .inr held
      | some b => exact .inl (drafted.1 a held)
    · contradiction

theorem defaultsMade {fields : Fields τ} {position : Nat} {row : Row τ}
    (ok : fields.defaults position = .ok row) : fields.Made levels row := by
  induction fields generalizing position with
  | nil => trivial
  | cons field rest ih =>
    unfold Fields.defaults at ok
    split at ok
    · rename_i a default
      cases later : rest.defaults (position + 1) with
      | error _ =>
        rw [later] at ok
        contradiction
      | ok others =>
        rw [later] at ok
        cases ok
        exact ⟨.inr default, ih later⟩
    · contradiction

theorem itemsMade {fields : Fields τ} {wanted : String} {holding : Holding} {stop : ListEnd}
    {position : Nat} {outlines : List Outline} {row : Row τ}
    (ok : fields.readItems wanted holding (levels + 1) stop position outlines = .ok row) :
    fields.Made levels row := by
  induction fields generalizing position outlines with
  | nil => trivial
  | cons field rest ih =>
    cases outlines with
    | nil =>
      obtain ⟨_, _, ok⟩ := bindOk ok
      split at ok
      · rename_i values defaults
        cases ok
        exact defaultsMade defaults
      · contradiction
    | cons outline outlines =>
      obtain ⟨a, read, ok⟩ := bindOk ok
      obtain ⟨others, later, same⟩ := bindOk ok
      cases same
      exact ⟨.inl ⟨_, _, read⟩, ih later⟩

theorem recordGives {title : Title} {fields : Fields τ} {row : Row τ}
    (gives : (Reader.record title fields).Gives levels row) :
    ∃ inner, levels = inner + 1 ∧ fields.Made inner row := by
  obtain ⟨holding, outline, ok⟩ := gives
  unfold Reader.record at ok
  split at ok
  · obtain ⟨depth, entered, ok⟩ := bindOk ok
    obtain ⟨inner, left, rfl⟩ := enterOk entered
    obtain ⟨draft, read, ok⟩ := bindOk ok
    exact ⟨inner, left, completeMade (membersDrafted (blankDrafted fields) read) ok⟩
  · split at ok
    · obtain ⟨depth, entered, ok⟩ := bindOk ok
      obtain ⟨inner, left, rfl⟩ := enterOk entered
      exact ⟨inner, left, itemsMade ok⟩
    · contradiction
  · contradiction

theorem variantFound {variants : List (String × β)} {name : String} {b : β}
    (found : findVariant variants name = .ok b) : ∃ name, (name, b) ∈ variants := by
  unfold findVariant at found
  split at found
  · rename_i variant same
    cases found
    exact ⟨variant.1, List.mem_of_find?_eq_some same⟩
  · contradiction

theorem keyFaultRefused (variants : List (String × β)) (stop : ObjectEnd) (a : α) :
    variantKeyFault variants stop ≠ .ok a := by
  intro ok
  unfold variantKeyFault at ok
  split at ok
  · contradiction
  · contradiction
  · obtain ⟨name, _, ok⟩ := bindOk ok
    obtain ⟨_, _, ok⟩ := bindOk ok
    contradiction
  · contradiction

theorem choiceGives {variants : List (String × Payload α)} {a : α}
    (gives : (Reader.choice variants).Gives levels a) : ∃ name payload, (name, payload) ∈ variants ∧
      (payload = .nothing a ∨ ∃ inner, levels = inner + 1 ∧ payload.read.Gives inner a) := by
  obtain ⟨holding, outline, ok⟩ := gives
  unfold Reader.choice at ok
  split at ok
  · obtain ⟨name, _, ok⟩ := bindOk ok
    obtain ⟨payload, found, bare⟩ := bindOk ok
    obtain ⟨name, member⟩ := variantFound found
    refine ⟨name, payload, member, .inl ?_⟩
    cases payload with
    | nothing b => exact congrArg Payload.nothing (Except.ok.inj bare)
    | single r => contradiction
    | fields r => contradiction
  · obtain ⟨depth, entered, ok⟩ := bindOk ok
    obtain ⟨inner, left, rfl⟩ := enterOk entered
    obtain ⟨name, _, ok⟩ := bindOk ok
    obtain ⟨payload, found, ok⟩ := bindOk ok
    obtain ⟨b, read, ok⟩ := bindOk ok
    obtain ⟨_, _, same⟩ := bindOk ok
    cases same
    obtain ⟨name, member⟩ := variantFound found
    exact ⟨name, payload, member, .inr ⟨inner, left, _, _, read⟩⟩
  · obtain ⟨_, _, ok⟩ := bindOk ok
    exact absurd ok (keyFaultRefused _ _ _)
  · contradiction
  · contradiction
  · obtain ⟨depth, entered, ok⟩ := bindOk ok
    obtain ⟨inner, left, rfl⟩ := enterOk entered
    obtain ⟨name, _, ok⟩ := bindOk ok
    obtain ⟨payload, found, read⟩ := bindOk ok
    obtain ⟨name, member⟩ := variantFound found
    exact ⟨name, payload, member, .inr ⟨inner, left, _, _, read⟩⟩
  · contradiction
  · contradiction

theorem taggedEnd {variants : List (String × β)} {tag : String} {holding : Holding} {depth : Nat}
    {stop : ObjectEnd} {found : Option β} {result : Tagged β}
    (ok : readTagged variants tag holding depth stop found [] = .ok result) : result = ⟨found, []⟩ := by
  have closed : (refuse stop.fault? >>= fun _ => pure (Tagged.mk found [])) = .ok result := by
    unfold readTagged at ok
    split at ok
    · obtain ⟨_, _, ok⟩ := bindOk ok
      split at ok
      · contradiction
      · exact ok
    · exact ok
  obtain ⟨_, _, same⟩ := bindOk closed
  exact (Except.ok.inj same).symm

theorem taggedVariant {variants : List (String × β)} {tag : String} {holding : Holding} {depth : Nat}
    {stop : ObjectEnd} {found : Option β} {members : List (Quoted × Outline)} {result : Tagged β}
    (known : ∀ b, found = some b → ∃ name, (name, b) ∈ variants)
    (ok : readTagged variants tag holding depth stop found members = .ok result) :
    ∀ b, result.tag = some b → ∃ name, (name, b) ∈ variants := by
  induction members generalizing found result with
  | nil =>
    cases taggedEnd ok
    exact known
  | cons member members ih =>
    obtain ⟨key, value⟩ := member
    rw [readTagged] at ok
    obtain ⟨name, _, ok⟩ := bindOk ok
    split at ok
    · split at ok
      · contradiction
      · obtain ⟨b, read, ok⟩ := bindOk ok
        obtain ⟨text, _, named⟩ := bindOk read
        refine ih ?_ ok
        rintro _ ⟨⟩
        exact variantFound named
    · obtain ⟨_, _, ok⟩ := bindOk ok
      obtain ⟨rest, later, same⟩ := bindOk ok
      cases same
      exact fun b same => ih known later b same

theorem taggedGives {wanted tag : String} {variants : List (String × Reader α)} {a : α}
    (gives : (Reader.tagged wanted tag variants).Gives levels a) :
    ∃ name read, (name, read) ∈ variants ∧ read.Gives levels a := by
  obtain ⟨holding, outline, ok⟩ := gives
  unfold Reader.tagged at ok
  split at ok
  · obtain ⟨inner, _, ok⟩ := bindOk ok
    obtain ⟨result, tagged, ok⟩ := bindOk ok
    split at ok
    · contradiction
    · rename_i read same
      obtain ⟨name, member⟩ := taggedVariant nofun tagged read same
      exact ⟨name, read, member, _, _, ok⟩
  · obtain ⟨inner, _, ok⟩ := bindOk ok
    split at ok
    · obtain ⟨_, _, wrong⟩ := bindOk ok
      contradiction
    · obtain ⟨read, named, ok⟩ := bindOk ok
      obtain ⟨text, _, found⟩ := bindOk named
      obtain ⟨_, _, ok⟩ := bindOk ok
      obtain ⟨_, _, ok⟩ := bindOk ok
      obtain ⟨name, member⟩ := variantFound found
      exact ⟨name, read, member, _, _, ok⟩
  · contradiction

end CompilationUnit.Json
