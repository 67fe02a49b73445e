import CompilationUnit.Json.Choice
import CompilationUnit.Proofs.Json.Rendering
import Mathlib.Data.List.Nodup

/-! Readers on written values. A reader reads a value where it gives one and the same result for every
holding, as long as enough levels of nesting are left; what reads the parts of a list, a record or a
choice makes up what reads the whole. -/
namespace CompilationUnit.Json

/- The bound on the levels is for readers that are cut off after some layers; others have none. -/
def Reader.Reads (r : Reader α) (bound : Nat) (v : Value) (a : α) : Prop :=
  ∀ holding levels, levels < bound → v.depth ≤ levels → r holding (levels + 1) v.outline = .ok a

variable {bound : Nat} {v : Value}

theorem readsString (s : String) : Reader.string.Reads bound (.string s) s := fun _ _ _ _ => rfl

theorem readsBoolean (b : Bool) : Reader.boolean.Reads bound (.boolean b) b := fun _ _ _ _ => rfl

theorem readsInteger {low high i : Int} {wanted : String} (least : low ≤ i) (most : i ≤ high) :
    (Reader.integer low high wanted).Reads bound (.integer i) i :=
  fun _ _ _ _ => if_pos ⟨least, most⟩

theorem readsMap {r : Reader α} {a : α} (f : α → β) (reads : r.Reads bound v a) :
    (r.map f).Reads bound v (f a) := by
  intro holding levels below enough
  unfold Reader.map
  rw [reads holding levels below enough]
  rfl

theorem readsInt64 (i : Int64) : Reader.int64.Reads bound (.integer i.toInt) i := by
  have reads : Reader.int64.Reads bound (.integer i.toInt) (Int64.ofInt i.toInt) :=
    readsMap _ (readsInteger i.minValue_le_toInt i.toInt_le)
  rwa [Int64.ofInt_toInt] at reads

theorem readsUint32 (n : UInt32) : Reader.uint32.Reads bound (.integer n.toNat) n := by
  have least : (0 : Int) ≤ n.toNat := Int.natCast_nonneg _
  have most : (n.toNat : Int) ≤ 0xffffffff := by
    have bounded := n.toNat_lt
    omega
  have reads : Reader.uint32.Reads bound (.integer n.toNat) (UInt32.ofNat (n.toNat : Int).toNat) :=
    readsMap _ (readsInteger least most)
  rwa [Int.toNat_natCast, UInt32.ofNat_toNat] at reads

theorem readsNone (r : Reader α) : r.optional.Reads bound .null none := fun _ _ _ _ => rfl

theorem optionalPresent (r : Reader α) (holding : Holding) (depth : Nat) (present : v ≠ .null) :
    r.optional holding depth v.outline = (r holding depth v.outline).map some := by
  cases v with
  | null => contradiction
  | boolean b => rfl
  | integer i => rfl
  | string s => rfl
  | list items =>
    rw [Value.outline]
    rfl
  | object members =>
    rw [Value.outline]
    rfl

theorem readsSome {r : Reader α} {a : α} (present : v ≠ .null) (reads : r.Reads bound v a) :
    r.optional.Reads bound v (some a) := by
  intro holding levels below enough
  rw [optionalPresent r holding _ present, reads holding levels below enough]
  rfl

theorem readItems {r : Reader α} {items : List Value} {as : List α} {levels : Nat} (holding : Holding)
    (reads : List.Forall₂ (r.Reads bound) items as) (below : levels < bound)
    (enough : depthItems items ≤ levels) :
    r.items holding (levels + 1) .closed (outlineItems items) = .ok as := by
  induction reads with
  | nil => rfl
  | cons read _ ih =>
    rw [depthItems, Nat.max_le] at enough
    rw [outlineItems, Reader.items, read holding levels below enough.1, ih enough.2]
    rfl

theorem readsList {r : Reader α} {items : List Value} {as : List α}
    (reads : List.Forall₂ (r.Reads bound) items as) : r.list.Reads bound (.list items) as := by
  intro holding levels below enough
  rw [Value.depth] at enough
  rw [Value.outline]
  cases levels with
  | zero => contradiction
  | succ inner => exact readItems holding reads (Nat.lt_of_succ_lt below) (Nat.le_of_succ_le_succ enough)

theorem readsBare {variants : List (String × Payload α)} {name : String} {a : α}
    (found : findVariant variants name = .ok (.nothing a)) :
    (Reader.choice variants).Reads bound (.string name) a := by
  intro holding levels _ _
  change (findVariant variants name >>= Payload.bare) = _
  rw [found]
  rfl

theorem readsVariant {variants : List (String × Payload α)} {name : String} {payload : Payload α} {a : α}
    (found : findVariant variants name = .ok payload) (reads : payload.read.Reads bound v a) :
    (Reader.choice variants).Reads (bound + 1) (.object [(name, v)]) a := by
  intro holding levels below enough
  rw [Value.depth, depthMembers, depthMembers, Nat.max_zero] at enough
  rw [Value.outline, outlineMembers, outlineMembers]
  cases levels with
  | zero => contradiction
  | succ inner =>
    have read := fun h => reads h inner (Nat.lt_of_succ_lt_succ below) (Nat.le_of_succ_le_succ enough)
    cases holding with
    | streamed =>
      change (findVariant variants name >>= fun payload => payload.read .streamed (inner + 1) v.outline >>=
        fun a => endVariant [] .closed >>= fun _ => pure a) = _
      rw [found]
      change (payload.read .streamed (inner + 1) v.outline >>= _) = _
      rw [read .streamed]
      rfl
    | buffered =>
      change (findVariant variants name >>= fun payload => payload.read .buffered (inner + 1) v.outline) = _
      rw [found]
      exact read .buffered
    | complete =>
      change (findVariant variants name >>= fun payload => payload.read .complete (inner + 1) v.outline) = _
      rw [found]
      exact read .complete

def Once (names : List String) (members : List (String × α)) : Prop :=
  ∀ name ∈ names, (members.map Prod.fst).count name ≤ 1

section Once

variable {names : List String} {members others : List (String × α)} {key : String} {a : α}

theorem onceDistinct (names : List String) (distinct : (members.map Prod.fst).Nodup) : Once names members :=
  fun name _ => List.nodup_iff_count_le_one.mp distinct name

theorem onceSublist (fewer : others.Sublist members) (once : Once names members) : Once names others :=
  fun name known => Nat.le_trans ((fewer.map Prod.fst).count_le name) (once name known)

theorem onceTail (once : Once names ((key, a) :: members)) : Once names members :=
  onceSublist (List.sublist_cons_self _ _) once

theorem onceFresh (known : key ∈ names) (once : Once names ((key, a) :: members)) :
    key ∉ members.map Prod.fst := by
  have counted := once key known
  rw [List.map_cons, List.count_cons_self] at counted
  exact List.count_eq_zero.mp (by omega)

end Once

def Fields.names : Fields τ → List String
  | .nil => []
  | .cons field rest => field.name :: rest.names

/- What a field holds, or what the members to come still have to give it; a default is used where they
give nothing. -/
def Field.Awaits (field : Field α) (bound : Nat) (members : List (String × Value)) (a : α) :
    Option α → Prop
  | some b => b = a ∧ field.name ∉ members.map Prod.fst
  | none => (∃ v, (field.name, v) ∈ members ∧ field.read.Reads bound v a) ∨
      field.name ∉ members.map Prod.fst ∧ field.default = some a

def Fields.Awaits (bound : Nat) (members : List (String × Value)) :
    (fields : Fields τ) → Draft τ → Row τ → Prop
  | .nil, _, _ => True
  | .cons field rest, (value, others), (a, row) =>
    field.Awaits bound members a value ∧ rest.Awaits bound members others row

theorem fieldAwaitsTail {field : Field α} {key : String} {members : List (String × Value)} {a : α}
    {value : Option α} (other : field.name ≠ key)
    (awaits : field.Awaits bound ((key, v) :: members) a value) : field.Awaits bound members a value := by
  cases value with
  | some b => exact ⟨awaits.1, fun member => awaits.2 (List.mem_cons_of_mem _ member)⟩
  | none =>
    rcases awaits with ⟨given, member, reads⟩ | ⟨missing, default⟩
    · refine .inl ⟨given, ?_, reads⟩
      rcases List.mem_cons.mp member with first | later
      · exact absurd (congrArg Prod.fst first) other
      · exact later
    · exact .inr ⟨fun member => missing (List.mem_cons_of_mem _ member), default⟩

theorem fieldAwaitsHead {field : Field α} {members : List (String × Value)} {a : α} {value : Option α}
    (once : field.name ∉ members.map Prod.fst)
    (awaits : field.Awaits bound ((field.name, v) :: members) a value) :
    value = none ∧ field.read.Reads bound v a := by
  cases value with
  | some b => exact absurd List.mem_cons_self awaits.2
  | none =>
    rcases awaits with ⟨given, member, reads⟩ | ⟨missing, _⟩
    · rcases List.mem_cons.mp member with first | later
      · cases first
        exact ⟨rfl, reads⟩
      · exact absurd (List.mem_map_of_mem later) once
    · exact absurd List.mem_cons_self missing

theorem awaitsTail {key : String} {members : List (String × Value)} {fields : Fields τ}
    {draft : Draft τ} {row : Row τ} (unknown : key ∉ fields.names)
    (awaits : fields.Awaits bound ((key, v) :: members) draft row) :
    fields.Awaits bound members draft row := by
  induction fields with
  | nil => trivial
  | cons field rest ih =>
    rw [Fields.names, List.mem_cons, not_or] at unknown
    exact ⟨fieldAwaitsTail (Ne.symm unknown.1) awaits.1, ih unknown.2 awaits.2⟩

theorem putUnknown {key : String} {fields : Fields τ} (unknown : key ∉ fields.names)
    (take : {α : Type} → Reader α → Except Fault α) (draft : Draft τ) :
    fields.holds key draft = false ∧ fields.put key take draft = none := by
  induction fields with
  | nil => exact ⟨rfl, rfl⟩
  | cons field rest ih =>
    rw [Fields.names, List.mem_cons, not_or] at unknown
    obtain ⟨value, others⟩ := draft
    obtain ⟨unheld, unput⟩ := ih unknown.2 others
    unfold Fields.holds Fields.put
    rw [if_neg (Ne.symm unknown.1), if_neg (Ne.symm unknown.1), unput]
    exact ⟨unheld, rfl⟩

theorem putKnown {key : String} {members : List (String × Value)} {fields : Fields τ} {draft : Draft τ}
    {row : Row τ} (distinct : fields.names.Nodup) (known : key ∈ fields.names)
    (once : key ∉ members.map Prod.fst) (awaits : fields.Awaits bound ((key, v) :: members) draft row) :
    fields.holds key draft = false ∧ ∃ next, fields.Awaits bound members next row ∧
      ∀ holding levels, levels < bound → v.depth ≤ levels →
        fields.put key (fun r => r holding (levels + 1) v.outline) draft = some (.ok next) := by
  induction fields with
  | nil => contradiction
  | cons field rest ih =>
    obtain ⟨value, others⟩ := draft
    obtain ⟨a, row⟩ := row
    obtain ⟨fresh, distinct⟩ := List.nodup_cons.mp distinct
    obtain ⟨first, later⟩ := awaits
    by_cases same : field.name = key
    · subst same
      obtain ⟨rfl, reads⟩ := fieldAwaitsHead once first
      refine ⟨if_pos rfl, (some a, others), ⟨⟨rfl, once⟩, awaitsTail fresh later⟩, ?_⟩
      intro holding levels below enough
      unfold Fields.put
      rw [if_pos rfl, reads holding levels below enough]
      rfl
    · rw [Fields.names, List.mem_cons] at known
      obtain ⟨unheld, next, awaits, put⟩ := ih distinct (known.resolve_left (Ne.symm same)) later
      refine ⟨(if_neg same).trans unheld, (value, next), ⟨fieldAwaitsTail same first, awaits⟩, ?_⟩
      intro holding levels below enough
      unfold Fields.put
      rw [if_neg same, put holding levels below enough]
      rfl

mutual

theorem skipValue : (v : Value) → v.outline.skip = .ok ()
  | .null => rfl
  | .boolean _ => rfl
  | .integer _ => rfl
  | .string _ => rfl
  | .list items => by
    rw [Value.outline, Outline.skip, skipValues items]
    rfl
  | .object members => by
    rw [Value.outline, Outline.skip, skipMembersOf members]
    rfl

theorem skipValues : (items : List Value) → skipItems (outlineItems items) = .ok ()
  | [] => rfl
  | item :: items => by
    rw [outlineItems, skipItems, skipValue item, skipValues items]
    rfl

theorem skipMembersOf : (members : List (String × Value)) → skipMembers (outlineMembers members) = .ok ()
  | [] => rfl
  | (key, value) :: members => by
    rw [outlineMembers, skipMembers, skipValue value, skipMembersOf members]
    rfl

end

theorem readMembersNext {key : String} {value : Outline} {members : List (Quoted × Outline)}
    {fields : Fields τ} {draft : Draft τ} (holding : Holding) (depth : Nat)
    (unheld : fields.holds key draft = false) :
    fields.readMembers holding depth .closed draft ((.ofString key, value) :: members) =
      match fields.put key (fun r => r holding depth value) draft with
      | some result => result >>= fun next => fields.readMembers holding depth .closed next members
      | none => value.skip >>= fun _ => fields.readMembers holding depth .closed draft members := by
  rw [Fields.readMembers]
  change (fields.refuseRepeated draft key >>= fun _ => _) = _
  unfold Fields.refuseRepeated
  rw [unheld]
  rfl

theorem readMembersAwaited {members : List (String × Value)} {fields : Fields τ} {draft : Draft τ}
    {row : Row τ} {levels : Nat} (holding : Holding) (distinct : fields.names.Nodup)
    (once : Once fields.names members) (awaits : fields.Awaits bound members draft row)
    (below : levels < bound) (enough : depthMembers members ≤ levels) :
    ∃ next, fields.Awaits bound [] next row ∧
      fields.readMembers holding (levels + 1) .closed draft (outlineMembers members) = .ok next := by
  induction members generalizing draft with
  | nil => exact ⟨draft, awaits, rfl⟩
  | cons member members ih =>
    obtain ⟨key, v⟩ := member
    rw [depthMembers, Nat.max_le] at enough
    rw [outlineMembers]
    by_cases known : key ∈ fields.names
    · obtain ⟨unheld, next, later, put⟩ := putKnown distinct known (onceFresh known once) awaits
      obtain ⟨last, done, read⟩ := ih (onceTail once) later enough.2
      refine ⟨last, done, ?_⟩
      rw [readMembersNext holding _ unheld, put holding levels below enough.1]
      exact read
    · obtain ⟨unheld, unput⟩ := putUnknown known (fun r => r holding (levels + 1) v.outline) draft
      obtain ⟨last, done, read⟩ := ih (onceTail once) (awaitsTail known awaits) enough.2
      refine ⟨last, done, ?_⟩
      rw [readMembersNext holding _ unheld, unput, skipValue]
      exact read

theorem completeAwaited {fields : Fields τ} {draft : Draft τ} {row : Row τ}
    (awaits : fields.Awaits bound [] draft row) : fields.complete draft = .ok row := by
  induction fields with
  | nil => rfl
  | cons field rest ih =>
    obtain ⟨value, others⟩ := draft
    obtain ⟨a, row⟩ := row
    obtain ⟨first, later⟩ := awaits
    have settled : value.or field.default = some a := by
      cases value with
      | some b => exact congrArg some first.1
      | none =>
        rcases first with ⟨_, member, _⟩ | ⟨_, default⟩
        · contradiction
        · exact default
    unfold Fields.complete
    rw [settled, ih later]
    rfl

theorem readsRecord {title : Title} {fields : Fields τ} {members : List (String × Value)} {row : Row τ}
    (distinct : fields.names.Nodup) (once : Once fields.names members)
    (awaits : fields.Awaits bound members fields.blank row) :
    (Reader.record title fields).Reads bound (.object members) row := by
  intro holding levels below enough
  rw [Value.depth] at enough
  rw [Value.outline]
  cases levels with
  | zero => contradiction
  | succ inner =>
    obtain ⟨draft, done, read⟩ := readMembersAwaited holding distinct once awaits
      (Nat.lt_of_succ_lt below) (Nat.le_of_succ_le_succ enough)
    change (fields.readMembers holding (inner + 1) .closed fields.blank (outlineMembers members) >>= _) = _
    rw [read]
    exact completeAwaited done

theorem readsFewer {r : Reader α} {a : α} (reads : r.Reads (bound + 1) v a) : r.Reads bound v a :=
  fun holding levels below enough => reads holding levels (Nat.lt_succ_of_lt below) enough

theorem readsNested {layer : Reader α → Reader α} {a : α}
    (reads : ∀ n, (Reader.layers layer (n + 1)).Reads n v a) : (Reader.nested layer).Reads bound v a :=
  fun holding levels _ enough => reads (levels + 1) holding levels (Nat.lt_succ_self levels) enough

theorem readsLayer {layer : Reader α → Reader α} {a : α}
    (reads : ∀ n, (layer (Reader.layers layer (n + 1))).Reads (n + 1) v a) (n : Nat) :
    (Reader.layers layer (n + 1)).Reads n v a := by
  cases n with
  | zero => exact fun _ _ below _ => absurd below (Nat.not_lt_zero _)
  | succ n => exact reads n

end CompilationUnit.Json
