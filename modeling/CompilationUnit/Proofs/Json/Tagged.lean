import CompilationUnit.Proofs.Json.Form

/-! Choices with a tag. All members beside the tag are checked before any of them is read, so a value that
nests too deep is refused as a whole; otherwise the members are read as the fields of their variant. -/
namespace CompilationUnit.Json

def checked (depth levels : Nat) : Except Fault Unit := if depth ≤ levels then .ok () else .error .tooDeep

theorem checkedMax (a b levels : Nat) :
    (checked a levels >>= fun _ => checked b levels) = checked (max a b) levels := by
  unfold checked
  by_cases first : a ≤ levels
  · simp only [Nat.max_le, first, true_and]
    rfl
  · have less : ¬ max a b ≤ levels := fun both => first (Nat.max_le.mp both).1
    rw [if_neg first, if_neg less]
    rfl

theorem checkedInner (depth inner : Nat) : checked (depth + 1) (inner + 1) = checked depth inner := by
  simp [checked]

mutual

theorem checkValue (levels : Nat) : (v : Value) → v.outline.check (levels + 1) = checked v.depth levels
  | .null => rfl
  | .boolean _ => rfl
  | .integer _ => rfl
  | .string _ => rfl
  | .list items => by
    rw [Value.outline, Outline.check, Value.depth]
    cases levels with
    | zero => rfl
    | succ inner =>
      change (checkItems (inner + 1) (outlineItems items) >>= fun _ => _) = _
      rw [checkValues inner items, checkedInner]
      cases checked (depthItems items) inner <;> rfl
  | .object members => by
    rw [Value.outline, Outline.check, Value.depth]
    cases levels with
    | zero => rfl
    | succ inner =>
      change (checkMembers (inner + 1) (outlineMembers members) >>= fun _ => _) = _
      rw [checkMembersOf inner members, checkedInner]
      cases checked (depthMembers members) inner <;> rfl

theorem checkValues (levels : Nat) : (items : List Value) →
    checkItems (levels + 1) (outlineItems items) = checked (depthItems items) levels
  | [] => rfl
  | item :: items => by
    rw [outlineItems, checkItems, checkValue levels item, checkValues levels items, depthItems, checkedMax]

theorem checkMembersOf (levels : Nat) : (members : List (String × Value)) →
    checkMembers (levels + 1) (outlineMembers members) = checked (depthMembers members) levels
  | [] => rfl
  | (key, value) :: members => by
    rw [outlineMembers, checkMembers, depthMembers, ← checkedMax, ← checkValue levels value,
      ← checkMembersOf levels members]
    rfl

end

section Tagged

variable {variants : List (String × β)} {tag name : String} {found : β}
  {members : List (String × Value)}

theorem readTaggedOthers (holding : Holding) (levels : Nat) (untagged : tag ∉ members.map Prod.fst) :
    readTagged variants tag holding (levels + 1) .closed (some found) (outlineMembers members) =
      (checked (depthMembers members) levels).map fun _ => ⟨some found, outlineMembers members⟩ := by
  induction members with
  | nil => rfl
  | cons member members ih =>
    obtain ⟨key, v⟩ := member
    rw [List.map_cons, List.mem_cons, not_or] at untagged
    rw [outlineMembers, readTagged, depthMembers, ← checkedMax, ih untagged.2, checkValue]
    change (if key = tag then _ else _) = _
    rw [if_neg (Ne.symm untagged.1)]
    cases checked v.depth levels with
    | error fault => rfl
    | ok _ => cases checked (depthMembers members) levels <;> rfl

def besideTag (tag : String) (members : List (String × Value)) : List (String × Value) :=
  members.filter fun member => member.1 ≠ tag

theorem besideTagUntagged (untagged : tag ∉ members.map Prod.fst) : besideTag tag members = members := by
  refine List.filter_eq_self.mpr fun member inside => decide_eq_true ?_
  rintro rfl
  exact untagged (List.mem_map_of_mem inside)

theorem besideTagFirst {v : Value} (untagged : tag ∉ members.map Prod.fst) :
    besideTag tag ((tag, v) :: members) = members := by
  unfold besideTag
  rw [List.filter_cons_of_neg (by simp)]
  exact besideTagUntagged untagged

theorem readTaggedMembers (holding : Holding) (levels : Nat) (known : findVariant variants name = .ok found)
    (once : Once [tag] members) (tagged : (tag, .string name) ∈ members) :
    readTagged variants tag holding (levels + 1) .closed none (outlineMembers members) =
      (checked (depthMembers (besideTag tag members)) levels).map
        fun _ => ⟨some found, outlineMembers (besideTag tag members)⟩ := by
  induction members with
  | nil => contradiction
  | cons member members ih =>
    obtain ⟨key, v⟩ := member
    rw [outlineMembers, readTagged]
    change (if key = tag then _ else _) = _
    rcases List.mem_cons.mp tagged with first | later
    · cases first
      have fresh := onceFresh List.mem_cons_self once
      have read : readTag variants holding (levels + 1) (Value.string name).outline = .ok found := known
      rw [if_pos rfl, read, besideTagFirst fresh, ← readTaggedOthers holding levels fresh]
      rfl
    · have other : key ≠ tag := by
        rintro rfl
        exact onceFresh List.mem_cons_self once (List.mem_map.mpr ⟨_, later, rfl⟩)
      have beside : besideTag tag ((key, v) :: members) = (key, v) :: besideTag tag members :=
        List.filter_cons_of_pos (decide_eq_true other)
      rw [if_neg other, beside, outlineMembers, depthMembers, ← checkedMax, ih (onceTail once) later, checkValue]
      cases checked v.depth levels with
      | error fault => rfl
      | ok _ => cases checked (depthMembers (besideTag tag members)) levels <;> rfl

end Tagged

theorem taggedMembers {wanted tag name : String} {variants : List (String × Reader α)} {read : Reader α}
    {members : List (String × Value)} (holding : Holding) (levels : Nat)
    (known : findVariant variants name = .ok read) (once : Once [tag] members)
    (tagged : (tag, .string name) ∈ members) :
    Reader.tagged wanted tag variants holding (levels + 1) (Value.object members).outline =
      (checked (depthMembers (besideTag tag members) + 1) levels >>= fun _ =>
        read .buffered (levels + 1) (Value.object (besideTag tag members)).outline) := by
  rw [Value.outline]
  cases levels with
  | zero => rfl
  | succ inner =>
    rw [checkedInner]
    change (readTagged variants tag holding (inner + 1) .closed none _ >>= _) = _
    rw [readTaggedMembers holding inner known once tagged, Value.outline]
    cases checked (depthMembers (besideTag tag members)) inner <;> rfl

theorem depthBeside (tag : String) (members : List (String × Value)) :
    depthMembers (besideTag tag members) ≤ depthMembers members := by
  induction members with
  | nil => exact Nat.le_refl _
  | cons member members ih =>
    rw [depthMembers]
    unfold besideTag at ih ⊢
    rw [List.filter_cons]
    split
    · rw [depthMembers]
      omega
    · omega

theorem readsTagged {wanted tag name : String} {variants : List (String × Reader α)} {read : Reader α}
    {members : List (String × Value)} {bound : Nat} {a : α} (known : findVariant variants name = .ok read)
    (once : Once [tag] members) (tagged : (tag, .string name) ∈ members)
    (reads : read.Reads bound (.object (besideTag tag members)) a) :
    (Reader.tagged wanted tag variants).Reads bound (.object members) a := by
  intro holding levels below enough
  rw [Value.depth] at enough
  have within : (Value.object (besideTag tag members)).depth ≤ levels :=
    Nat.le_trans (Nat.succ_le_succ (depthBeside tag members)) enough
  rw [taggedMembers holding levels known once tagged, ← reads .buffered levels below within]
  rw [Value.depth] at within
  unfold checked
  rw [if_pos within]
  rfl

theorem spellsBeside {tag : String} {forms : List (String × Bool × Form)} {members : List (String × Value)}
    (untagged : tag ∉ forms.map Prod.fst) (spells : SpellsMembers forms members) :
    SpellsMembers forms (besideTag tag members) := by
  induction forms with
  | nil => trivial
  | cons form forms ih =>
    obtain ⟨key, marked, form⟩ := form
    rw [List.map_cons, List.mem_cons, not_or] at untagged
    refine ⟨?_, ih untagged.2 spells.2⟩
    rcases spells.1 with ⟨v, member, spelled⟩ | ⟨left, missing⟩
    · exact .inl ⟨v, List.mem_filter.mpr ⟨member, decide_eq_true (Ne.symm untagged.1)⟩, spelled⟩
    · exact .inr ⟨left, fun member => missing ((List.filter_sublist.map Prod.fst).subset member)⟩

theorem takesTagged {wanted tag name : String} {variants : List (String × Reader α)} {read : Reader α}
    {forms : List (String × Bool × Form)} {bound : Nat} {a : α}
    (known : findVariant variants name = .ok read) (untagged : tag ∉ forms.map Prod.fst)
    (takes : read.Takes bound (.record forms) a) :
    (Reader.tagged wanted tag variants).Takes bound
      (.record ((tag, false, .plain (.string name)) :: forms)) a := by
  refine ⟨⟨List.nodup_cons.mpr ⟨untagged, takes.sound.1⟩, trivial, takes.sound.2⟩, ?_⟩
  rintro _ ⟨members, rfl, once, free, spelled⟩
  rcases spelled.1 with ⟨_, tagged, rfl⟩ | ⟨wrong, _⟩
  · have tagOnce : Once [tag] members := fun other single => once other (List.mem_singleton.mp single ▸ .head _)
    have othersOnce : Once (forms.map Prod.fst) (besideTag tag members) :=
      fun other known => onceSublist List.filter_sublist once other (List.mem_cons_of_mem _ known)
    have othersFree : NumberFreeBeside (forms.map Prod.fst) (besideTag tag members) := by
      intro member beside unknown
      obtain ⟨inside, other⟩ := List.mem_filter.mp beside
      exact free member inside (List.not_mem_cons_of_ne_of_not_mem (of_decide_eq_true other) unknown)
    exact readsTagged known tagOnce tagged
      (takes.reads ⟨_, rfl, othersOnce, othersFree, spellsBeside untagged spelled.2⟩)
  · contradiction

end CompilationUnit.Json
