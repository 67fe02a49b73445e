import CompilationUnit.Proofs.Json.Tagged

/-! Refused values: with a number of levels left, a list or a record is refused if one of its parts is refused
with a level less. With no level left both are refused. -/
namespace CompilationUnit.Json

def Refused (result : Except Fault α) : Prop := ∃ fault, result = .error fault

theorem refusedBind {result : Except Fault α} {next : α → Except Fault β} (refused : Refused result) :
    Refused (result >>= next) := by
  obtain ⟨fault, rfl⟩ := refused
  exact ⟨fault, rfl⟩

theorem bindRefused {result : Except Fault α} {next : α → Except Fault β}
    (refused : ∀ a, Refused (next a)) : Refused (result >>= next) := by
  cases result with
  | error fault => exact ⟨fault, rfl⟩
  | ok a => exact refused a

def Reader.Refuses (r : Reader α) (levels : Nat) (v : Value) : Prop :=
  ∀ holding, Refused (r holding (levels + 1) v.outline)

variable {levels : Nat} {v : Value}

theorem mapRefuses {r : Reader α} (f : α → β) (refuses : r.Refuses levels v) :
    (r.map f).Refuses levels v := by
  intro holding
  obtain ⟨fault, refused⟩ := refuses holding
  refine ⟨fault, ?_⟩
  rw [Reader.map, refused]
  rfl

theorem optionalRefuses {r : Reader α} (present : v ≠ .null) (refuses : r.Refuses levels v) :
    r.optional.Refuses levels v := by
  intro holding
  obtain ⟨fault, refused⟩ := refuses holding
  refine ⟨fault, ?_⟩
  rw [optionalPresent r holding _ present, refused]
  rfl

theorem itemsRefused {r : Reader α} {items : List Value} (member : v ∈ items) (refuses : r.Refuses levels v)
    (holding : Holding) : Refused (r.items holding (levels + 1) .closed (outlineItems items)) := by
  induction items with
  | nil => contradiction
  | cons first items ih =>
    rw [outlineItems, Reader.items]
    rcases List.mem_cons.mp member with rfl | later
    · exact refusedBind (refuses holding)
    · exact bindRefused fun _ => refusedBind (ih later)

theorem listTooDeep (r : Reader α) (items : List Value) : r.list.Refuses 0 (.list items) := by
  intro holding
  rw [Value.outline]
  exact ⟨.tooDeep, rfl⟩

theorem listRefuses {r : Reader α} {items : List Value} (member : v ∈ items)
    (refuses : ∀ inner, levels = inner + 1 → r.Refuses inner v) : r.list.Refuses levels (.list items) := by
  cases levels with
  | zero => exact listTooDeep r items
  | succ inner =>
    intro holding
    rw [Value.outline]
    exact itemsRefused member (refuses inner rfl) holding

def Fields.Refuses (levels : Nat) (key : String) (v : Value) : Fields τ → Prop
  | .nil => False
  | .cons field rest =>
    if field.name = key then field.read.Refuses levels v else rest.Refuses levels key v

theorem putRefused {fields : Fields τ} {key : String} (refuses : fields.Refuses levels key v)
    (holding : Holding) (draft : Draft τ) :
    ∃ fault, fields.put key (fun r => r holding (levels + 1) v.outline) draft = some (.error fault) := by
  induction fields with
  | nil => contradiction
  | cons field rest ih =>
    obtain ⟨held, others⟩ := draft
    unfold Fields.Refuses at refuses
    unfold Fields.put
    split at refuses
    · rename_i same
      obtain ⟨fault, refused⟩ := refuses holding
      refine ⟨fault, ?_⟩
      rw [if_pos same, refused]
      rfl
    · rename_i different
      obtain ⟨fault, put⟩ := ih refuses others
      refine ⟨fault, ?_⟩
      rw [if_neg different, put]
      rfl

theorem membersRefused {fields : Fields τ} {key : String} {members : List (String × Value)}
    (member : (key, v) ∈ members) (refuses : fields.Refuses levels key v) (holding : Holding)
    (draft : Draft τ) :
    Refused (fields.readMembers holding (levels + 1) .closed draft (outlineMembers members)) := by
  induction members generalizing draft with
  | nil => contradiction
  | cons first members ih =>
    obtain ⟨name, value⟩ := first
    rw [outlineMembers, Fields.readMembers]
    rcases List.mem_cons.mp member with same | later
    · cases same
      obtain ⟨fault, put⟩ := putRefused refuses holding draft
      change Refused (fields.refuseRepeated draft key >>= fun _ => _)
      refine bindRefused fun _ => ?_
      rw [put]
      exact ⟨fault, rfl⟩
    · refine bindRefused fun name => bindRefused fun _ => ?_
      split
      · exact bindRefused fun next => ih later next
      · exact bindRefused fun _ => ih later draft

theorem recordRefuses {title : Title} {fields : Fields τ} {key : String} {members : List (String × Value)}
    (member : (key, v) ∈ members) (refuses : ∀ inner, levels = inner + 1 → fields.Refuses inner key v) :
    (Reader.record title fields).Refuses levels (.object members) := by
  intro holding
  rw [Value.outline]
  cases levels with
  | zero => exact ⟨.tooDeep, rfl⟩
  | succ inner =>
    change Refused (fields.readMembers holding (inner + 1) .closed fields.blank (outlineMembers members) >>= _)
    exact refusedBind (membersRefused member (refuses inner rfl) holding fields.blank)

theorem taggedRefuses {wanted tag name : String} {variants : List (String × Reader α)} {read : Reader α}
    {members : List (String × Value)} (known : findVariant variants name = .ok read)
    (once : (tag :: members.map Prod.fst).Nodup)
    (refuses : (Value.object ((tag, .string name) :: members)).depth ≤ levels →
      read.Refuses levels (.object members)) :
    (Reader.tagged wanted tag variants).Refuses levels (.object ((tag, .string name) :: members)) := by
  intro holding
  have tagOnce : Once [tag] ((tag, Value.string name) :: members) := onceDistinct _ once
  have beside : besideTag tag ((tag, .string name) :: members) = members :=
    besideTagFirst (List.nodup_cons.mp once).1
  have depth : (Value.object ((tag, .string name) :: members)).depth = depthMembers members + 1 :=
    congrArg (· + 1) (Nat.zero_max _)
  -- What nests too deep is refused before any of it is read.
  rw [taggedMembers holding levels known tagOnce List.mem_cons_self, beside, checked]
  split
  · rename_i enough
    exact refuses (depth ▸ enough) .buffered
  · exact ⟨.tooDeep, rfl⟩

end CompilationUnit.Json
