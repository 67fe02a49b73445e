import CompilationUnit.Proofs.Json.Form
import Mathlib.Logic.Relation

/-! Spellings rewritten one change at a time: the members of a record in another order, a supplied member
left out, a member added that no field asks for. Whatever is rewritten, and however deep inside, remains a
spelling of the same form. -/
namespace CompilationUnit.Json
open Relation

inductive Form.Rewrites : Form → Value → Value → Prop
  | reorder {forms : List (String × Bool × Form)} {members others : List (String × Value)}
      (order : members.Perm others) : Rewrites (.record forms) (.object members) (.object others)
  | leaveOut {forms : List (String × Bool × Form)} {before after : List (String × Value)}
      {key : String} {f : Form} {v : Value} (supplied : (key, true, f) ∈ forms) :
      Rewrites (.record forms) (.object (before ++ (key, v) :: after)) (.object (before ++ after))
  | add {forms : List (String × Bool × Form)} {before after : List (String × Value)}
      {key : String} {v : Value} (unknown : key ∉ forms.map Prod.fst) (free : v.NumberFree) :
      Rewrites (.record forms) (.object (before ++ after)) (.object (before ++ (key, v) :: after))
  | member {forms : List (String × Bool × Form)} {before after : List (String × Value)}
      {key : String} {marked : Bool} {f : Form} {v w : Value} (known : (key, marked, f) ∈ forms)
      (inside : Rewrites f v w) :
      Rewrites (.record forms) (.object (before ++ (key, v) :: after)) (.object (before ++ (key, w) :: after))
  | content {name : String} {f : Form} {v w : Value} (inside : Rewrites f v w) :
      Rewrites (.variant name f) (.object [(name, v)]) (.object [(name, w)])
  | item {forms later : List Form} {items others : List Value} {f : Form} {v w : Value}
      (place : forms.length = items.length) (inside : Rewrites f v w) :
      Rewrites (.list (forms ++ f :: later)) (.list (items ++ v :: others)) (.list (items ++ w :: others))

def Spelled (form : String × Bool × Form) (members : List (String × Value)) : Prop :=
  (∃ v, (form.1, v) ∈ members ∧ form.2.2.Spells v) ∨ form.2.1 = true ∧ form.1 ∉ members.map Prod.fst

variable {forms : List (String × Bool × Form)} {members others before after : List (String × Value)}
  {key : String} {v w : Value}

theorem spellsMembersIff :
    SpellsMembers forms members ↔ ∀ form ∈ forms, Spelled form members := by
  induction forms with
  | nil => simp [SpellsMembers]
  | cons form forms ih => rw [SpellsMembers, ih, List.forall_mem_cons, Spelled]

theorem soundMember {form : String × Bool × Form} (sound : SoundMembers forms) (member : form ∈ forms) :
    form.2.2.Sound := by
  induction forms with
  | nil => contradiction
  | cons first forms ih =>
    rcases List.mem_cons.mp member with rfl | later
    · exact sound.1
    · exact ih sound.2 later

theorem onceSame {names : List String} (once : Once names members) (known : key ∈ names)
    (first : (key, v) ∈ members) (second : (key, w) ∈ members) : v = w := by
  induction members with
  | nil => contradiction
  | cons member members ih =>
    obtain ⟨name, u⟩ := member
    rcases List.mem_cons.mp first with ⟨⟨⟩⟩ | firstLater
    · rcases List.mem_cons.mp second with ⟨⟨⟩⟩ | secondLater
      · rfl
      · exact absurd (List.mem_map_of_mem secondLater) (onceFresh known once)
    · rcases List.mem_cons.mp second with ⟨⟨⟩⟩ | secondLater
      · exact absurd (List.mem_map_of_mem firstLater) (onceFresh known once)
      · exact ih (onceTail once) firstLater secondLater

theorem spelledOther {form : String × Bool × Form} (spelled : Spelled form members)
    (same : ∀ v, (form.1, v) ∈ members ↔ (form.1, v) ∈ others) : Spelled form others := by
  rcases spelled with ⟨v, member, spells⟩ | ⟨marked, missing⟩
  · exact .inl ⟨v, (same v).mp member, spells⟩
  · refine .inr ⟨marked, fun present => missing ?_⟩
    obtain ⟨⟨_, v⟩, inside, rfl⟩ := List.mem_map.mp present
    exact List.mem_map_of_mem ((same v).mpr inside)

theorem besideIff {name : String} (other : name ≠ key) :
    (name, w) ∈ before ++ (key, v) :: after ↔ (name, w) ∈ before ++ after := by
  simp [other]

theorem betweenFresh {names : List String} (once : Once names (before ++ (key, v) :: after)) (known : key ∈ names) :
    key ∉ (before ++ after).map Prod.fst := by
  have counted := once key known
  rw [List.map_append, List.map_cons, List.count_append, List.count_cons_self] at counted
  rw [← List.count_eq_zero, List.map_append, List.count_append]
  omega

theorem recordSpellsIff : (Form.record forms).Spells (.object members) ↔
    Once (forms.map Prod.fst) members ∧ NumberFreeBeside (forms.map Prod.fst) members ∧
      ∀ form ∈ forms, Spelled form members := by
  rw [← spellsMembersIff]
  constructor
  · rintro ⟨_, ⟨⟩, spells⟩
    exact spells
  · exact fun spells => ⟨members, rfl, spells⟩

theorem reorderSpells (order : members.Perm others) (spells : (Form.record forms).Spells (.object members)) :
    (Form.record forms).Spells (.object others) := by
  rw [recordSpellsIff] at spells ⊢
  obtain ⟨once, free, spelled⟩ := spells
  refine ⟨fun name known => ?_, fun member inside => free member (order.symm.subset inside), fun form known => ?_⟩
  · rw [← (order.map Prod.fst).count_eq]
    exact once name known
  · exact spelledOther (spelled form known) fun v => order.mem_iff

theorem leaveOutSpells {f : Form} (distinct : (forms.map Prod.fst).Nodup) (supplied : (key, true, f) ∈ forms)
    (spells : (Form.record forms).Spells (.object (before ++ (key, v) :: after))) :
    (Form.record forms).Spells (.object (before ++ after)) := by
  rw [recordSpellsIff] at spells ⊢
  obtain ⟨once, free, spelled⟩ := spells
  have fewer : (before ++ after).Sublist (before ++ (key, v) :: after) :=
    (List.sublist_cons_self _ _).append_left before
  refine ⟨onceSublist fewer once, fun member inside => free member (fewer.subset inside), fun form known => ?_⟩
  by_cases same : form.1 = key
  · have found : form = (key, true, f) := List.inj_on_of_nodup_map distinct known supplied same
    rw [found]
    exact .inr ⟨rfl, betweenFresh once (List.mem_map_of_mem supplied)⟩
  · exact spelledOther (spelled form known) fun _ => besideIff same

theorem addSpells (unknown : key ∉ forms.map Prod.fst) (free : v.NumberFree)
    (spells : (Form.record forms).Spells (.object (before ++ after))) :
    (Form.record forms).Spells (.object (before ++ (key, v) :: after)) := by
  rw [recordSpellsIff] at spells ⊢
  obtain ⟨once, others, spelled⟩ := spells
  have other : ∀ name ∈ forms.map Prod.fst, name ≠ key := fun name known same => unknown (same ▸ known)
  refine ⟨fun name known => ?_, fun member inside strange => ?_, fun form known => ?_⟩
  · have counted := once name known
    rw [List.map_append, List.count_append] at counted ⊢
    rwa [List.map_cons, List.count_cons_of_ne (other name known).symm]
  · rcases List.mem_append.mp inside with first | later
    · exact others member (List.mem_append_left _ first) strange
    · rcases List.mem_cons.mp later with rfl | last
      · exact free
      · exact others member (List.mem_append_right _ last) strange
  · exact spelledOther (spelled form known) fun _ => (besideIff (other _ (List.mem_map_of_mem known))).symm

theorem memberSpells {f : Form} {marked : Bool} (distinct : (forms.map Prod.fst).Nodup)
    (known : (key, marked, f) ∈ forms) (inside : f.Spells v → f.Spells w)
    (spells : (Form.record forms).Spells (.object (before ++ (key, v) :: after))) :
    (Form.record forms).Spells (.object (before ++ (key, w) :: after)) := by
  rw [recordSpellsIff] at spells ⊢
  obtain ⟨once, free, spelled⟩ := spells
  have keyKnown : key ∈ forms.map Prod.fst := List.mem_map_of_mem known
  have keys : (before ++ (key, w) :: after).map Prod.fst = (before ++ (key, v) :: after).map Prod.fst := by simp
  refine ⟨fun name listed => ?_, fun member present strange => ?_, fun form listed => ?_⟩
  · rw [keys]
    exact once name listed
  · have other : member.1 ≠ key := fun same => strange (same ▸ keyKnown)
    exact free member ((besideIff other).mpr ((besideIff other).mp present)) strange
  · by_cases same : form.1 = key
    · have found : form = (key, marked, f) := List.inj_on_of_nodup_map distinct listed known same
      rcases spelled form listed with ⟨u, member, spells⟩ | ⟨_, missing⟩
      · rw [found] at member spells ⊢
        have value : u = v := onceSame once keyKnown member (by simp)
        exact .inl ⟨w, by simp, inside (value ▸ spells)⟩
      · exact absurd (by simp [same]) missing
    · exact spelledOther (spelled form listed) fun _ => (besideIff same).trans (besideIff same).symm

theorem itemSpells {later : List Form} {items : List Form} {f : Form} {vs ws : List Value}
    (place : items.length = vs.length) (inside : f.Spells v → f.Spells w)
    (spells : SpellsItems (items ++ f :: later) (vs ++ v :: ws)) :
    SpellsItems (items ++ f :: later) (vs ++ w :: ws) := by
  induction items generalizing vs with
  | nil =>
    cases vs with
    | nil =>
      obtain ⟨_, _, ⟨⟩, first, others⟩ := spells
      exact ⟨w, ws, rfl, inside first, others⟩
    | cons u vs => contradiction
  | cons item items ih =>
    cases vs with
    | nil => contradiction
    | cons u vs =>
      obtain ⟨_, _, ⟨⟩, first, others⟩ := spells
      exact ⟨u, _, rfl, first, ih (Nat.succ.inj place) others⟩

theorem soundItem {items later : List Form} {f : Form} (sound : SoundItems (items ++ f :: later)) : f.Sound := by
  induction items with
  | nil => exact sound.1
  | cons item items ih => exact ih sound.2

theorem rewriteSpells {f : Form} (sound : f.Sound) (rewrites : f.Rewrites v w) (spells : f.Spells v) :
    f.Spells w := by
  induction rewrites with
  | reorder order => exact reorderSpells order spells
  | leaveOut supplied => exact leaveOutSpells sound.1 supplied spells
  | add unknown free => exact addSpells unknown free spells
  | member known inside ih => exact memberSpells sound.1 known (ih (soundMember sound.2 known)) spells
  | content inside ih =>
    obtain ⟨_, ⟨⟩, spelled⟩ := spells
    exact ⟨_, rfl, ih sound spelled⟩
  | item place inside ih =>
    obtain ⟨_, ⟨⟩, spelled⟩ := spells
    exact ⟨_, rfl, itemSpells place (ih (soundItem sound)) spelled⟩

theorem rewrittenSpells {f : Form} (sound : f.Sound) (rewritten : ReflTransGen f.Rewrites v w)
    (spells : f.Spells v) : f.Spells w := by
  induction rewritten with
  | refl => exact spells
  | tail _ last ih => exact rewriteSpells sound last ih

mutual

theorem numberFreeFits : (v : Value) → v.NumberFree → v.Fits
  | .null, _ => trivial
  | .boolean _, _ => trivial
  | .string _, _ => trivial
  | .list items, free => numberFreeItemsFit items free
  | .object members, free => numberFreeMembersFit members free

theorem numberFreeItemsFit : (items : List Value) → NumberFreeItems items → FitsItems items
  | [], _ => trivial
  | item :: items, free => ⟨numberFreeFits item free.1, numberFreeItemsFit items free.2⟩

theorem numberFreeMembersFit : (members : List (String × Value)) → NumberFreeMembers members →
    FitsMembers members
  | [], _ => trivial
  | (_, value) :: members, free => ⟨numberFreeFits value free.1, numberFreeMembersFit members free.2⟩

end

theorem fitsMembersIff : FitsMembers members ↔ ∀ member ∈ members, member.2.Fits := by
  induction members with
  | nil => simp [FitsMembers]
  | cons member members ih => rw [FitsMembers, ih, List.forall_mem_cons]

mutual

theorem spelledFits : (f : Form) → f.Sound → ∀ {w}, f.Spells w → w.Fits
  | .plain _, sound, _, rfl => sound
  | .list items, sound, _, ⟨_, rfl, spelled⟩ => spelledItemsFit items sound spelled
  | .variant _ content, sound, _, ⟨_, rfl, spelled⟩ => ⟨spelledFits content sound spelled, trivial⟩
  | .record forms, sound, _, ⟨members, rfl, once, free, spelled⟩ => by
    refine fitsMembersIff.mpr fun member inside => ?_
    by_cases known : member.1 ∈ forms.map Prod.fst
    · exact spelledMembersFit forms sound.2 spelled known inside fun v other => onceSame once known other inside
    · exact numberFreeFits member.2 (free member inside known)

theorem spelledItemsFit : (items : List Form) → SoundItems items → ∀ {vs}, SpellsItems items vs → FitsItems vs
  | [], _, _, rfl => trivial
  | item :: items, sound, _, ⟨_, _, rfl, first, later⟩ =>
    ⟨spelledFits item sound.1 first, spelledItemsFit items sound.2 later⟩

theorem spelledMembersFit : (forms : List (String × Bool × Form)) → SoundMembers forms →
    ∀ {members key v}, SpellsMembers forms members → key ∈ forms.map Prod.fst → (key, v) ∈ members →
      (∀ u, (key, u) ∈ members → u = v) → v.Fits
  | (name, _, form) :: forms, sound, members, key, v, spelled, known, inside, single => by
    by_cases same : key = name
    · subst same
      rcases spelled.1 with ⟨u, member, spells⟩ | ⟨_, missing⟩
      · exact single u member ▸ spelledFits form sound.1 spells
      · exact absurd (List.mem_map_of_mem inside) missing
    · have later : key ∈ forms.map Prod.fst := (List.mem_cons.mp known).resolve_left same
      exact spelledMembersFit forms sound.2 spelled.2 later inside single

end

end CompilationUnit.Json
