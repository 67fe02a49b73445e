import CompilationUnit.Manifest
import CompilationUnit.Proofs.Code.Depth
import CompilationUnit.Proofs.Placement

/-! Manifests written and read again. What is written of a manifest is read as the same manifest, unless one
of its placements is a type without a name or the text nests too deep; then it is refused. -/
namespace CompilationUnit

open Json

def Info.form (info : Info) : Form :=
  .record [("placement", info.placement.isNone, formOption Placement.form info.placement),
    ("entry_point", !info.entryPoint, .plain (.boolean info.entryPoint)),
    ("depends_on", info.dependsOn.isEmpty, .plain (.names info.dependsOn))]

def Registration.form : Registration → Form
  | .ordinary definition info =>
    .record [("kind", false, .plain (.string "ordinary")), ("definition", false, definition.form),
      ("info", decide (info = .default), info.form)]
  | .asm definition info =>
    .record [("kind", false, .plain (.string "asm")), ("definition", false, definition.form),
      ("info", decide (info = .default), info.form)]
  | .placeholder name info =>
    .record [("kind", false, .plain (.string "placeholder")), ("name", false, .plain (.string name)),
      ("info", decide (info = .default), info.form)]

def Manifest.form (m : Manifest) : Form :=
  .record [("policy", decide (m.policy = .overwrite), .plain m.policy.encode),
    ("functions", m.functions.isEmpty, formList Registration.form m.functions)]

theorem infoFull (info : Info) : info.form.full = info.encode := by
  rw [Info.form, Info.encode, ← optionFull Placement.formFull, Form.full, Form.write, fullRecord]
  rfl

theorem registrationFull (registration : Registration) : registration.form.full = registration.encode := by
  cases registration with
  | ordinary definition info =>
    rw [Registration.form, Registration.encode, ← definitionFull, ← infoFull, Form.full, Form.write,
      fullRecord]
    rfl
  | asm definition info =>
    rw [Registration.form, Registration.encode, ← asmDefinitionFull, ← infoFull, Form.full, Form.write,
      fullRecord]
    rfl
  | placeholder name info =>
    rw [Registration.form, Registration.encode, ← infoFull, Form.full, Form.write, fullRecord]
    rfl

theorem manifestFull (m : Manifest) : m.form.full = m.encode := by
  rw [Manifest.form, Manifest.encode, ← listFull registrationFull, Form.full, Form.write, fullRecord]
  rfl

def Info.IsPlaceable (info : Info) : Prop := info.placement ≠ some (.type "")

def Manifest.IsPlaceable (m : Manifest) : Prop :=
  ∀ registration ∈ m.functions, registration.info.IsPlaceable

theorem takesInfo {info : Info} (placeable : info.IsPlaceable) : Info.reader.Takes bound info.form info := by
  have named : ∀ p, info.placement = some p → Placement.reader.Takes bound p.form p :=
    fun p placed => Placement.takes fun same => placeable (same ▸ placed)
  have formed : Info.fields.Formed bound _ (info.placement, info.entryPoint, info.dependsOn, ()) :=
    .perhaps (takesOption Placement.formPresent named) suppliedNone.mp <|
    .perhaps (takesBoolean info.entryPoint) suppliedFalse.mp <|
    .perhaps (takesNames info.dependsOn) suppliedEmpty.mp .nil
  exact takesMap _ (takesRecord formed (by decide : ["placement", "entry_point", "depends_on"].Nodup))

theorem takesRegistration {registration : Registration} (placeable : registration.info.IsPlaceable) :
    Registration.reader.Takes bound registration.form registration := by
  cases registration with
  | ordinary definition info =>
    have formed : Registration.ordinaryFields.Formed bound _ (definition, info, ()) :=
      .always (takesDefinition definition) <| .perhaps (takesInfo placeable) suppliedValue.mp .nil
    exact takesTagged rfl (by decide : "kind" ∉ ["definition", "info"])
      (takesMap _ (takesRecord formed (by decide : ["definition", "info"].Nodup)))
  | asm definition info =>
    have formed : Registration.asmFields.Formed bound _ (definition, info, ()) :=
      .always (takesAsmDefinition definition) <| .perhaps (takesInfo placeable) suppliedValue.mp .nil
    exact takesTagged rfl (by decide : "kind" ∉ ["definition", "info"])
      (takesMap _ (takesRecord formed (by decide : ["definition", "info"].Nodup)))
  | placeholder name info =>
    have formed : Registration.placeholderFields.Formed bound _ (name, info, ()) :=
      .always (takesString name) <| .perhaps (takesInfo placeable) suppliedValue.mp .nil
    exact takesTagged rfl (by decide : "kind" ∉ ["name", "info"])
      (takesMap _ (takesRecord formed (by decide : ["name", "info"].Nodup)))

theorem takesPolicy (policy : Policy) : Policy.reader.Takes bound (.plain policy.encode) policy := by
  refine takesPlain trivial (readsBare ?_)
  cases policy <;> rfl

theorem takesManifest {m : Manifest} (placeable : m.IsPlaceable) : Manifest.reader.Takes bound m.form m := by
  have formed : Manifest.fields.Formed bound _ (m.policy, m.functions, ()) :=
    .perhaps (takesPolicy m.policy) suppliedValue.mp <|
    .perhaps (takesFormList fun registration member => takesRegistration (placeable registration member))
      suppliedEmpty.mp .nil
  exact takesMap _ (takesRecord formed (by decide : ["policy", "functions"].Nodup))

theorem infoGiven {info : Info} (gives : Info.reader.Gives levels info) : info.IsPlaceable := by
  obtain ⟨⟨placement, _⟩, given, rfl⟩ := mapGives gives
  obtain ⟨inner, _, made, _⟩ := recordGives given
  intro unnamed
  rcases made with read | default
  · exact Placement.givesNamed (optionalGives read _ unnamed) rfl
  · cases unnamed
    cases default

theorem infoMade {info : Info} (made : Info.reader.Gives levels info ∨ some Info.default = some info) :
    info.IsPlaceable := by
  rcases made with read | default
  · exact infoGiven read
  · cases default
    nofun

theorem registrationGiven {registration : Registration}
    (gives : Registration.reader.Gives levels registration) : registration.info.IsPlaceable := by
  obtain ⟨name, read, member, given⟩ := taggedGives gives
  simp only [Registration.variants, List.mem_cons, Prod.mk.injEq, List.not_mem_nil, or_false] at member
  rcases member with ⟨_, rfl⟩ | ⟨_, rfl⟩ | ⟨_, rfl⟩ <;>
  · obtain ⟨row, record, rfl⟩ := mapGives given
    obtain ⟨_, _, _, made, _⟩ := recordGives record
    exact infoMade made

theorem manifestGiven {m : Manifest} (gives : Manifest.reader.Gives levels m) : m.IsPlaceable := by
  obtain ⟨⟨policy, functions, _⟩, given, rfl⟩ := mapGives gives
  obtain ⟨inner, _, _, made, _⟩ := recordGives given
  intro registration member
  rcases made with read | default
  · obtain ⟨_, _, each⟩ := listGives read
    exact registrationGiven (each registration member)
  · cases default
    contradiction

theorem infoWithin : Info.reader.Within Info.form :=
  mapWithin (recordWithin fun (placement, _, dependsOn, ()) =>
    .cons (optionWithin (flatWithin fun _ => rfl) placement) suppliedNone.mpr <|
    .cons (fun _ _ => Nat.zero_le _) suppliedFalse.mpr <|
    .cons (namesWithin dependsOn) suppliedEmpty.mpr .nil)

theorem registrationWithin : Registration.reader.Within Registration.form :=
  taggedWithin ⟨
    mapWithin (tagWithin (recordWithin fun (definition, info, ()) =>
      .cons (definitionWithin definition) nofun <| .cons (infoWithin info) suppliedValue.mpr .nil)),
    mapWithin (tagWithin (recordWithin fun (definition, info, ()) =>
      .cons (asmDefinitionWithin definition) nofun <| .cons (infoWithin info) suppliedValue.mpr .nil)),
    mapWithin (tagWithin (recordWithin fun (name, info, ()) =>
      .cons (leafWithin _ name) nofun <| .cons (infoWithin info) suppliedValue.mpr .nil))⟩

theorem manifestWithin : Manifest.reader.Within Manifest.form :=
  mapWithin (recordWithin fun (_, functions, ()) =>
    .cons (fun _ _ => Nat.zero_le _) suppliedValue.mpr <|
    .cons (listWithin registrationWithin functions) suppliedEmpty.mpr .nil)

theorem infoRefused {info : Info} (unplaceable : ¬ info.IsPlaceable) (levels : Nat) :
    Info.reader.Refuses levels info.encode := by
  have unnamed : info.placement = some (.type "") := Decidable.of_not_not unplaceable
  have present : (Placement.type "").encode ≠ .null := nofun
  refine mapRefuses _ (recordRefuses List.mem_cons_self fun inner _ => ?_)
  rw [unnamed]
  exact optionalRefuses present (Placement.unnamedRefused inner)

theorem registrationRefused {registration : Registration}
    (refused : ¬ registration.info.IsPlaceable ∨ levels < registration.encode.depth) :
    Registration.reader.Refuses levels registration.encode := by
  have unplaceable : registration.encode.depth ≤ levels → ¬ registration.info.IsPlaceable :=
    fun enough => refused.resolve_right (Nat.not_lt.mpr enough)
  cases registration with
  | ordinary definition info =>
    refine taggedRefuses rfl (by decide : ["kind", "definition", "info"].Nodup) fun enough => ?_
    refine mapRefuses _ (recordRefuses (.tail _ (.head _)) fun inner _ => ?_)
    exact infoRefused (unplaceable enough) inner
  | asm definition info =>
    refine taggedRefuses rfl (by decide : ["kind", "definition", "info"].Nodup) fun enough => ?_
    refine mapRefuses _ (recordRefuses (.tail _ (.head _)) fun inner _ => ?_)
    exact infoRefused (unplaceable enough) inner
  | placeholder name info =>
    refine taggedRefuses rfl (by decide : ["kind", "name", "info"].Nodup) fun enough => ?_
    refine mapRefuses _ (recordRefuses (.tail _ (.head _)) fun inner _ => ?_)
    exact infoRefused (unplaceable enough) inner

theorem functionsRefused {functions : List Registration}
    (refused : (∃ registration ∈ functions, ¬ registration.info.IsPlaceable) ∨
      levels ≤ depthItems (functions.map Registration.encode)) :
    Registration.reader.list.Refuses levels (.ofList Registration.encode functions) := by
  cases levels with
  | zero => exact listTooDeep _ _
  | succ inner =>
    have found : ∃ registration ∈ functions,
        ¬ registration.info.IsPlaceable ∨ inner < registration.encode.depth := by
      by_contra none
      simp only [not_exists, not_and, not_or, not_not, Nat.not_lt] at none
      rcases refused with ⟨registration, member, unplaceable⟩ | deep
      · exact unplaceable (none registration member).1
      · refine Nat.not_lt.mpr (depthItemsLe ?_) deep
        intro v member
        obtain ⟨registration, inside, rfl⟩ := List.mem_map.mp member
        exact (none registration inside).2
    obtain ⟨registration, member, bad⟩ := found
    refine listRefuses (List.mem_map_of_mem member) fun deeper same => ?_
    exact registrationRefused (Nat.succ.inj same ▸ bad)

theorem manifestRefused {m : Manifest} (refused : ¬ m.IsPlaceable ∨ levels < m.encode.depth) :
    Manifest.reader.Refuses levels m.encode := by
  refine mapRefuses _ (recordRefuses (.tail _ (.head _)) fun inner left => ?_)
  refine functionsRefused (refused.imp ?_ ?_)
  · intro unplaceable
    unfold Manifest.IsPlaceable at unplaceable
    simpa using unplaceable
  · intro deep
    have depth : m.encode.depth = depthItems (m.functions.map Registration.encode) + 2 := by
      rw [Manifest.encode, Value.ofList, Value.depth]
      simp [depthMembers, Value.depth, Policy.encode]
    omega

theorem infoSound (info : Info) : info.form.Sound := by
  have placed : (formOption Placement.form info.placement).Sound := by cases info.placement <;> trivial
  have names : (Form.plain (.names info.dependsOn)).Sound :=
    (takesNames info.dependsOn : Reader.string.list.Takes 0 _ _).sound
  exact ⟨(by decide : ["placement", "entry_point", "depends_on"].Nodup), placed, trivial, names, trivial⟩

theorem registrationSound (registration : Registration) : registration.form.Sound := by
  cases registration with
  | ordinary definition info =>
    have sound := (takesDefinition definition : Definition.reader.Takes 0 _ _).sound
    exact ⟨(by decide : ["kind", "definition", "info"].Nodup), trivial, sound, infoSound info, trivial⟩
  | asm definition info =>
    have sound := (takesAsmDefinition definition : AsmDefinition.reader.Takes 0 _ _).sound
    exact ⟨(by decide : ["kind", "definition", "info"].Nodup), trivial, sound, infoSound info, trivial⟩
  | placeholder name info =>
    exact ⟨(by decide : ["kind", "name", "info"].Nodup), trivial, trivial, infoSound info, trivial⟩

theorem manifestSound (m : Manifest) : m.form.Sound :=
  ⟨(by decide : ["policy", "functions"].Nodup), trivial,
    soundList fun registration _ => registrationSound registration, trivial⟩

theorem readTextSpaced (r : Reader α) {v : Value} {text : String} (fits : v.Fits)
    (spaced : Spaced v.lexemes text.toList) : r.readText text = r .streamed nestingLimit v.outline := by
  rw [Reader.readText, spacedDocument fits spaced, Reader.readDocument]
  cases r .streamed nestingLimit v.outline <;> rfl

theorem readTextWritten (r : Reader α) {v : Value} (fits : v.Fits) :
    r.readText v.pretty = r .streamed nestingLimit v.outline :=
  readTextSpaced r fits (prettySpaced v)

namespace Manifest

theorem ofOwnSpelling {m : Manifest} (full : Bool) (placeable : m.IsPlaceable)
    (shallow : (m.form.write full).depth ≤ 127) : ofText (m.form.write full).pretty = .ok m := by
  have takes : reader.Takes 128 m.form m := takesManifest placeable
  rw [ofText, readTextWritten reader (writtenFits full m.form takes.sound)]
  exact takes.reads (writtenSpells full m.form takes.sound) .streamed 127 (by decide) shallow

theorem ofTextRefused {m : Manifest} (refused : ¬ m.IsPlaceable ∨ 127 < m.encode.depth) :
    Refused (ofText m.text) := by
  have fits : m.encode.Fits := manifestFull m ▸ writtenFits true m.form (manifestSound m)
  rw [ofText, text, readTextWritten reader fits]
  exact manifestRefused refused .streamed

theorem ofTextGives {text : String} {m : Manifest} (ok : ofText text = .ok m) : reader.Gives 127 m := by
  obtain ⟨_, read, ok⟩ := bindOk ok
  split at ok
  · contradiction
  · cases ok
    exact ⟨_, _, read⟩

theorem readBack (m : Manifest) :
    (ofText m.text = .ok m ↔
      (∀ registration ∈ m.functions, registration.info.placement ≠ some (.type "")) ∧
        m.encode.depth ≤ 127) ∧
    (ofText m.text ≠ .ok m → ∃ fault, ofText m.text = .error fault) ∧
    m.form.full = m.encode ∧
    ∀ text, ofText text = .ok m →
      (∀ registration ∈ m.functions, registration.info.placement ≠ some (.type "")) ∧
      m.form.bare.depth ≤ 127 ∧ ofText m.form.bare.pretty = .ok m ∧
      (ofText m.text ≠ .ok m → 127 < m.encode.depth) := by
  have written : m.IsPlaceable → m.encode.depth ≤ 127 → ofText m.text = .ok m := by
    intro placeable shallow
    rw [← manifestFull] at shallow
    rw [text, ← manifestFull]
    exact ofOwnSpelling true placeable shallow
  have refused : ¬ (m.IsPlaceable ∧ m.encode.depth ≤ 127) → Refused (ofText m.text) := by
    rw [not_and_or, Nat.not_le]
    exact ofTextRefused
  refine ⟨⟨fun read => ?_, fun fit => written fit.1 fit.2⟩, fun unread => ?_, manifestFull m, ?_⟩
  · by_contra unfit
    obtain ⟨fault, error⟩ := refused unfit
    rw [error] at read
    contradiction
  · exact refused fun fit => unread (written fit.1 fit.2)
  · intro text read
    have gives := ofTextGives read
    have placeable := manifestGiven gives
    have shallow := manifestWithin m 127 gives
    refine ⟨placeable, shallow, ofOwnSpelling false placeable shallow, fun unread => ?_⟩
    exact Nat.not_le.mp fun within => unread (written placeable within)

theorem typeNamesReadBack :
    (∃ m : Manifest, m.functions = [.placeholder "\"f\"" ⟨some (.type "stdlib"), true, ["g"]⟩] ∧
      ofText m.text = .ok m ∧ ofText m.form.bare.pretty = .ok m) ∧
    ∃ fault, ofText (Manifest.mk .strict [.placeholder "f" ⟨some (.type ""), false, []⟩]).text =
      .error fault := by
  have quoted := readBack ⟨.strict, [.placeholder "\"f\"" ⟨some (.type "stdlib"), true, ["g"]⟩]⟩
  have read := quoted.1.mpr ⟨List.forall_mem_singleton.mpr (by decide), by decide⟩
  refine ⟨⟨_, rfl, read, (quoted.2.2.2 _ read).2.2.1⟩, (readBack _).2.1 fun lost => ?_⟩
  exact ((readBack _).1.mp lost).1 _ List.mem_cons_self rfl

end Manifest

end CompilationUnit
