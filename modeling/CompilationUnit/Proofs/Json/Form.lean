import CompilationUnit.Proofs.Json.Reading
import Mathlib.Data.List.Forall2

/-! Forms: values whose records mark the members that a reader supplies itself. A marked member may be
left out, and members may stand in any order among others; all of these spellings read as the same. -/
namespace CompilationUnit.Json

inductive Form
  | plain (v : Value)
  | list (items : List Form)
  | variant (name : String) (content : Form)
  | record (members : List (String × Bool × Form))

mutual

def Form.write (full : Bool) : Form → Value
  | .plain v => v
  | .list items => .list (writeItems full items)
  | .variant name content => .object [(name, content.write full)]
  | .record members => .object (writeMembers full members)

def writeItems (full : Bool) : List Form → List Value
  | [] => []
  | item :: items => item.write full :: writeItems full items

def writeMembers (full : Bool) : List (String × Bool × Form) → List (String × Value)
  | [] => []
  | (key, marked, form) :: members =>
    if marked && !full then writeMembers full members
    else (key, form.write full) :: writeMembers full members

end

def formOption (form : α → Form) : Option α → Form
  | none => .plain .null
  | some a => form a

def formList (form : α → Form) (items : List α) : Form := .list (items.map form)

def Form.full (f : Form) : Value := f.write true

def Form.bare (f : Form) : Value := f.write false

mutual

def Value.NumberFree : Value → Prop
  | .integer _ => False
  | .list items => NumberFreeItems items
  | .object members => NumberFreeMembers members
  | _ => True

def NumberFreeItems : List Value → Prop
  | [] => True
  | item :: items => item.NumberFree ∧ NumberFreeItems items

def NumberFreeMembers : List (String × Value) → Prop
  | [] => True
  | (_, value) :: members => value.NumberFree ∧ NumberFreeMembers members

end

def NumberFreeBeside (keys : List String) (members : List (String × Value)) : Prop :=
  ∀ member ∈ members, member.1 ∉ keys → member.2.NumberFree

mutual

def Form.Spells : Form → Value → Prop
  | .plain v, w => w = v
  | .list items, w => ∃ vs, w = .list vs ∧ SpellsItems items vs
  | .variant name content, w => ∃ v, w = .object [(name, v)] ∧ content.Spells v
  | .record members, w => ∃ others, w = .object others ∧ Once (members.map Prod.fst) others ∧
      NumberFreeBeside (members.map Prod.fst) others ∧ SpellsMembers members others

def SpellsItems : List Form → List Value → Prop
  | [], vs => vs = []
  | item :: items, vs => ∃ v others, vs = v :: others ∧ item.Spells v ∧ SpellsItems items others

def SpellsMembers : List (String × Bool × Form) → List (String × Value) → Prop
  | [], _ => True
  | (key, marked, form) :: members, others =>
    ((∃ v, (key, v) ∈ others ∧ form.Spells v) ∨ marked = true ∧ key ∉ others.map Prod.fst) ∧
      SpellsMembers members others

end

mutual

def Form.Sound : Form → Prop
  | .plain v => v.Fits
  | .list items => SoundItems items
  | .variant _ content => content.Sound
  | .record members => (members.map Prod.fst).Nodup ∧ SoundMembers members

def SoundItems : List Form → Prop
  | [] => True
  | item :: items => item.Sound ∧ SoundItems items

def SoundMembers : List (String × Bool × Form) → Prop
  | [] => True
  | (_, _, form) :: members => form.Sound ∧ SoundMembers members

end

theorem fullRecord (members : List (String × Bool × Form)) :
    writeMembers true members = members.map fun (key, _, form) => (key, form.full) := by
  induction members with
  | nil => rfl
  | cons member members ih =>
    obtain ⟨key, marked, form⟩ := member
    rw [writeMembers, Bool.not_true, Bool.and_false, ih]
    rfl

theorem writtenItems (full : Bool) (items : List Form) :
    writeItems full items = items.map (Form.write full) := by
  induction items with
  | nil => rfl
  | cons item items ih =>
    rw [writeItems, ih]
    rfl

theorem soundList {form : α → Form} {items : List α} (sound : ∀ a ∈ items, (form a).Sound) :
    (formList form items).Sound := by
  induction items with
  | nil => trivial
  | cons item items ih =>
    obtain ⟨first, others⟩ := List.forall_mem_cons.mp sound
    exact ⟨first, ih others⟩

theorem optionFull {form : α → Form} {encode : α → Value} (full : ∀ a, (form a).full = encode a)
    (value : Option α) : (formOption form value).full = .ofOption encode value := by
  cases value with
  | none => rfl
  | some a => exact full a

theorem listFull {form : α → Form} {encode : α → Value} (full : ∀ a, (form a).full = encode a)
    (items : List α) : (formList form items).full = .ofList encode items := by
  rw [formList, Form.full, Form.write, writtenItems, List.map_map, Value.ofList]
  exact congrArg Value.list (List.map_congr_left fun a _ => full a)

theorem writtenNames (full : Bool) (members : List (String × Bool × Form)) :
    ((writeMembers full members).map Prod.fst).Sublist (members.map Prod.fst) := by
  induction members with
  | nil => exact .slnil
  | cons member members ih =>
    obtain ⟨key, marked, form⟩ := member
    rw [writeMembers]
    split
    · exact ih.cons key
    · exact ih.cons_cons key

theorem writtenKnown (full : Bool) (members : List (String × Bool × Form)) :
    NumberFreeBeside (members.map Prod.fst) (writeMembers full members) :=
  fun _ member unknown => absurd ((writtenNames full members).subset (List.mem_map_of_mem member)) unknown

mutual

theorem writtenFits (full : Bool) : (f : Form) → f.Sound → (f.write full).Fits
  | .plain _, sound => sound
  | .list items, sound => itemsFit full items sound
  | .variant _ content, sound => ⟨writtenFits full content sound, trivial⟩
  | .record members, sound => membersFit full members sound.2

theorem itemsFit (full : Bool) : (items : List Form) → SoundItems items → FitsItems (writeItems full items)
  | [], _ => trivial
  | item :: items, sound => ⟨writtenFits full item sound.1, itemsFit full items sound.2⟩

theorem membersFit (full : Bool) : (members : List (String × Bool × Form)) → SoundMembers members →
    FitsMembers (writeMembers full members)
  | [], _ => trivial
  | (_, marked, form) :: members, sound => by
    have others := membersFit full members sound.2
    rw [writeMembers]
    split
    · exact others
    · exact ⟨writtenFits full form sound.1, others⟩

end

theorem spellsAmong {key : String} {v : Value} {members : List (String × Bool × Form)}
    {others : List (String × Value)} (fresh : key ∉ members.map Prod.fst)
    (spells : SpellsMembers members others) : SpellsMembers members ((key, v) :: others) := by
  induction members with
  | nil => trivial
  | cons member members ih =>
    obtain ⟨name, marked, form⟩ := member
    rw [List.map_cons, List.mem_cons, not_or] at fresh
    refine ⟨?_, ih fresh.2 spells.2⟩
    rcases spells.1 with ⟨w, member, spelled⟩ | ⟨spare, missing⟩
    · exact .inl ⟨w, List.mem_cons_of_mem _ member, spelled⟩
    · refine .inr ⟨spare, fun member => ?_⟩
      rcases List.mem_cons.mp member with same | later
      · exact fresh.1 same.symm
      · exact missing later

mutual

theorem writtenSpells (full : Bool) : (f : Form) → f.Sound → f.Spells (f.write full)
  | .plain _, _ => rfl
  | .list items, sound => ⟨_, rfl, itemsSpelled full items sound⟩
  | .variant _ content, sound => ⟨_, rfl, writtenSpells full content sound⟩
  | .record members, sound => ⟨_, rfl, onceDistinct _ ((writtenNames full members).nodup sound.1),
      writtenKnown full members, membersSpelled full members sound.1 sound.2⟩

theorem itemsSpelled (full : Bool) : (items : List Form) → SoundItems items →
    SpellsItems items (writeItems full items)
  | [], _ => rfl
  | item :: items, sound =>
    ⟨_, _, rfl, writtenSpells full item sound.1, itemsSpelled full items sound.2⟩

theorem membersSpelled (full : Bool) : (members : List (String × Bool × Form)) →
    (members.map Prod.fst).Nodup → SoundMembers members →
    SpellsMembers members (writeMembers full members)
  | [], _, _ => trivial
  | (key, marked, form) :: members, distinct, sound => by
    obtain ⟨fresh, distinct⟩ := List.nodup_cons.mp distinct
    have others := membersSpelled full members distinct sound.2
    rw [writeMembers]
    split
    · rename_i left
      refine ⟨.inr ⟨(Bool.and_eq_true_iff.mp left).1, ?_⟩, others⟩
      exact fun member => fresh ((writtenNames full members).subset member)
    · refine ⟨.inl ⟨_, List.mem_cons_self, writtenSpells full form sound.1⟩, ?_⟩
      exact spellsAmong fresh others

end

theorem spelledPresent {f : Form} {v : Value} (present : f ≠ .plain .null) (spells : f.Spells v) :
    v ≠ .null := by
  rintro rfl
  cases f with
  | plain w => exact present (congrArg Form.plain (Eq.symm spells))
  | list items => obtain ⟨_, wrong, _⟩ := spells; contradiction
  | variant name content => obtain ⟨_, wrong, _⟩ := spells; contradiction
  | record members => obtain ⟨_, wrong, _⟩ := spells; contradiction

structure Reader.Takes (r : Reader α) (bound : Nat) (f : Form) (a : α) : Prop where
  sound : f.Sound
  reads : ∀ {v}, f.Spells v → r.Reads bound v a

variable {bound : Nat} {f : Form}

theorem takesPlain {r : Reader α} {v : Value} {a : α} (fits : v.Fits) (reads : r.Reads bound v a) :
    r.Takes bound (.plain v) a := by
  refine ⟨fits, ?_⟩
  rintro _ rfl
  exact reads

theorem takesString (s : String) : Reader.string.Takes bound (.plain (.string s)) s :=
  takesPlain trivial (readsString s)

theorem takesBoolean (b : Bool) : Reader.boolean.Takes bound (.plain (.boolean b)) b :=
  takesPlain trivial (readsBoolean b)

theorem int64Fits (i : Int64) : FitsNumber i.toInt := by
  have least := i.minValue_le_toInt
  have most := i.toInt_lt
  exact ⟨least, by omega⟩

theorem uint32Fits (n : UInt32) : FitsNumber n.toNat := by
  have most := n.toNat_lt
  constructor <;> omega

theorem takesInt64 (i : Int64) : Reader.int64.Takes bound (.plain (.integer i.toInt)) i :=
  takesPlain (int64Fits i) (readsInt64 i)

theorem takesMap {r : Reader α} {a : α} (g : α → β) (takes : r.Takes bound f a) :
    (r.map g).Takes bound f (g a) :=
  ⟨takes.sound, fun spells => readsMap g (takes.reads spells)⟩

theorem takesNone (r : Reader α) : r.optional.Takes bound (.plain .null) none :=
  takesPlain trivial (readsNone r)

theorem takesSome {r : Reader α} {a : α} (present : f ≠ .plain .null) (takes : r.Takes bound f a) :
    r.optional.Takes bound f (some a) :=
  ⟨takes.sound, fun spells => readsSome (spelledPresent present spells) (takes.reads spells)⟩

theorem takesList {r : Reader α} {forms : List Form} {as : List α}
    (takes : List.Forall₂ (r.Takes bound) forms as) : r.list.Takes bound (.list forms) as := by
  have each : SoundItems forms ∧ ∀ {vs}, SpellsItems forms vs → List.Forall₂ (r.Reads bound) vs as := by
    induction takes with
    | nil => exact ⟨trivial, fun none => none ▸ .nil⟩
    | cons first _ ih =>
      refine ⟨⟨first.sound, ih.1⟩, ?_⟩
      rintro _ ⟨v, others, rfl, spelled, later⟩
      exact .cons (first.reads spelled) (ih.2 later)
  refine ⟨each.1, ?_⟩
  rintro _ ⟨vs, rfl, spelled⟩
  exact readsList (each.2 spelled)

theorem takesOption {r : Reader α} {form : α → Form} {value : Option α}
    (present : ∀ a, form a ≠ .plain .null) (takes : ∀ a, value = some a → r.Takes bound (form a) a) :
    r.optional.Takes bound (formOption form value) value := by
  cases value with
  | none => exact takesNone r
  | some a => exact takesSome (present a) (takes a rfl)

theorem takesFormList {r : Reader α} {form : α → Form} {items : List α}
    (takes : ∀ a ∈ items, r.Takes bound (form a) a) : r.list.Takes bound (formList form items) items :=
  takesList (List.forall₂_map_left_iff.mpr (List.forall₂_same.mpr takes))

theorem takesPlainList {r : Reader α} (encode : α → Value) (fits : ∀ a, (encode a).Fits)
    (reads : ∀ a, r.Reads bound (encode a) a) (items : List α) :
    r.list.Takes bound (.plain (.ofList encode items)) items := by
  refine takesPlain ?_ (readsList (List.forall₂_map_left_iff.mpr (List.forall₂_same.mpr fun a _ => reads a)))
  induction items with
  | nil => trivial
  | cons item items ih => exact ⟨fits item, ih⟩

theorem takesNames (names : List String) : Reader.string.list.Takes bound (.plain (.names names)) names :=
  takesPlainList Value.string (fun _ => trivial) readsString names

theorem takesVariant {variants : List (String × Payload α)} {name : String} {payload : Payload α} {a : α}
    (found : findVariant variants name = .ok payload) (takes : payload.read.Takes bound f a) :
    (Reader.choice variants).Takes (bound + 1) (.variant name f) a := by
  refine ⟨takes.sound, ?_⟩
  rintro _ ⟨v, rfl, spelled⟩
  exact readsVariant found (takes.reads spelled)

theorem takesNested {layer : Reader α → Reader α} {a : α}
    (takes : ∀ n, (Reader.layers layer (n + 1)).Takes n f a) : (Reader.nested layer).Takes bound f a :=
  ⟨(takes 0).sound, fun spells => readsNested fun n => (takes n).reads spells⟩

theorem takesLayer {layer : Reader α → Reader α} {a : α}
    (takes : ∀ n, (layer (Reader.layers layer (n + 1))).Takes (n + 1) f a) (n : Nat) :
    (Reader.layers layer (n + 1)).Takes n f a :=
  ⟨(takes 0).sound, fun spells => readsLayer (fun m => (takes m).reads spells) n⟩

/- The form of a record names its fields in order, and marks one only where its default is held. -/
inductive Fields.Formed (bound : Nat) :
    {τ : List Type} → Fields τ → List (String × Bool × Form) → Row τ → Prop
  | nil : Formed bound .nil [] ()
  | always {field : Field α} {rest : Fields τ} {f : Form} {forms : List (String × Bool × Form)} {a : α}
      {row : Row τ} (takes : field.read.Takes bound f a) (later : rest.Formed bound forms row) :
      (Fields.cons field rest).Formed bound ((field.name, false, f) :: forms) (a, row)
  | perhaps {field : Field α} {rest : Fields τ} {marked : Bool} {f : Form}
      {forms : List (String × Bool × Form)} {a : α} {row : Row τ} (takes : field.read.Takes bound f a)
      (supplied : marked = true → field.default = some a) (later : rest.Formed bound forms row) :
      (Fields.cons field rest).Formed bound ((field.name, marked, f) :: forms) (a, row)

theorem formedNames {fields : Fields τ} {forms : List (String × Bool × Form)} {row : Row τ}
    (formed : fields.Formed bound forms row) : forms.map Prod.fst = fields.names := by
  induction formed with
  | nil => rfl
  | always _ _ ih => exact congrArg _ ih
  | perhaps _ _ _ ih => exact congrArg _ ih

theorem formedSound {fields : Fields τ} {forms : List (String × Bool × Form)} {row : Row τ}
    (formed : fields.Formed bound forms row) : SoundMembers forms := by
  induction formed with
  | nil => trivial
  | always takes _ ih => exact ⟨takes.sound, ih⟩
  | perhaps takes _ _ ih => exact ⟨takes.sound, ih⟩

theorem formedAwaited {fields : Fields τ} {forms : List (String × Bool × Form)} {row : Row τ}
    {members : List (String × Value)} (formed : fields.Formed bound forms row)
    (spells : SpellsMembers forms members) : fields.Awaits bound members fields.blank row := by
  induction formed with
  | nil => trivial
  | always takes _ ih =>
    refine ⟨?_, ih spells.2⟩
    rcases spells.1 with ⟨v, member, spelled⟩ | ⟨wrong, _⟩
    · exact .inl ⟨v, member, takes.reads spelled⟩
    · contradiction
  | perhaps takes supplied _ ih =>
    refine ⟨?_, ih spells.2⟩
    rcases spells.1 with ⟨v, member, spelled⟩ | ⟨left, missing⟩
    · exact .inl ⟨v, member, takes.reads spelled⟩
    · exact .inr ⟨missing, supplied left⟩

theorem takesRecord {title : Title} {fields : Fields τ} {forms : List (String × Bool × Form)}
    {row : Row τ} (formed : fields.Formed bound forms row) (distinct : (forms.map Prod.fst).Nodup) :
    (Reader.record title fields).Takes bound (.record forms) row := by
  refine ⟨⟨distinct, formedSound formed⟩, ?_⟩
  rintro _ ⟨members, rfl, once, _, spelled⟩
  rw [formedNames formed] at distinct once
  exact readsRecord distinct once (formedAwaited formed spelled)

end CompilationUnit.Json
