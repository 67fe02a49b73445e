import CompilationUnit.Proofs.Json.Form
import CompilationUnit.Proofs.Json.Giving

/-! How deep a value nests that a reader gave. Its bare spelling leaves out what the reader supplied itself, so
it nests no deeper than levels were left for the text it was read from. -/
namespace CompilationUnit.Json

variable {levels : Nat}

def Reader.Within (r : Reader α) (form : α → Form) : Prop :=
  ∀ a levels, r.Gives levels a → (form a).bare.depth ≤ levels

theorem flatWithin {r : Reader α} {form : α → Form} (flat : ∀ a, (form a).bare.depth = 0) :
    r.Within form := fun a levels _ => flat a ▸ Nat.zero_le levels

theorem mapWithin {r : Reader α} {f : α → β} {form : β → Form} (within : r.Within fun a => form (f a)) :
    (r.map f).Within form := by
  intro b levels gives
  obtain ⟨a, given, rfl⟩ := mapGives gives
  exact within a levels given

theorem optionWithin {r : Reader α} {form : α → Form} (within : r.Within form) :
    r.optional.Within (formOption form) := by
  intro value levels gives
  cases value with
  | none => exact Nat.zero_le levels
  | some a => exact within a levels (optionalGives gives a rfl)

theorem depthItemsLe {items : List Value} (shallow : ∀ v ∈ items, v.depth ≤ levels) :
    depthItems items ≤ levels := by
  induction items with
  | nil => exact Nat.zero_le levels
  | cons v items ih =>
    obtain ⟨first, others⟩ := List.forall_mem_cons.mp shallow
    exact Nat.max_le.mpr ⟨first, ih others⟩

theorem listWithin {r : Reader α} {form : α → Form} (within : r.Within form) :
    r.list.Within (formList form) := by
  intro as levels gives
  obtain ⟨inner, rfl, given⟩ := listGives gives
  rw [formList, Form.bare, Form.write, writtenItems, List.map_map, Value.depth]
  refine Nat.succ_le_succ (depthItemsLe ?_)
  rintro v member
  obtain ⟨a, inside, rfl⟩ := List.mem_map.mp member
  exact within a inner (given a inside)

theorem plainListWithin {r : Reader α} {encode : α → Value} (within : r.Within fun a => .plain (encode a)) :
    r.list.Within fun as => .plain (.ofList encode as) := by
  intro as levels gives
  have bare : (Form.plain (.ofList encode as)).bare = (formList (fun a => .plain (encode a)) as).bare := by
    rw [formList, Form.bare, Form.bare, Form.write, Form.write, writtenItems, List.map_map]
    rfl
  rw [bare]
  exact listWithin within as levels gives

theorem namesWithin : Reader.string.list.Within fun names => .plain (.names names) :=
  plainListWithin (flatWithin fun _ => rfl)

theorem layersWithin {layer : Reader α → Reader α} {form : α → Form}
    (within : ∀ r, r.Within form → (layer r).Within form) (n : Nat) : (Reader.layers layer n).Within form := by
  -- Along the layers, not along the value, which is whatever they made of an arbitrary text.
  induction n with
  | zero =>
    rintro a levels ⟨_, _, wrong⟩
    contradiction
  | succ n ih => exact within _ ih

theorem nestedWithin {layer : Reader α → Reader α} {form : α → Form}
    (within : ∀ r, r.Within form → (layer r).Within form) : (Reader.nested layer).Within form := by
  rintro a levels ⟨holding, outline, ok⟩
  exact layersWithin within (levels + 2) a levels ⟨holding, outline, ok⟩

def Payload.Within (form : α → Form) : Payload α → Prop
  | .nothing a => (form a).bare.depth = 0
  | .single r => ∀ a levels, r.Gives levels a → (form a).bare.depth ≤ levels + 1
  | .fields r => ∀ a levels, r.Gives levels a → (form a).bare.depth ≤ levels + 1

theorem choiceWithin {variants : List (String × Payload α)} {form : α → Form}
    (within : variants.Forall fun variant => variant.2.Within form) :
    (Reader.choice variants).Within form := by
  intro a levels gives
  obtain ⟨name, payload, member, given⟩ := choiceGives gives
  have inside := List.forall_iff_forall_mem.mp within _ member
  rcases given with rfl | ⟨inner, rfl, given⟩
  · exact inside ▸ Nat.zero_le levels
  · cases payload with
    | nothing b =>
      obtain ⟨_, _, rfl⟩ := mapGives given
      exact inside ▸ Nat.zero_le _
    | single r => exact inside a inner given
    | fields r => exact inside a inner given

theorem depthVariant (name : String) (f : Form) : (Form.variant name f).bare.depth = f.bare.depth + 1 := by
  rw [Form.bare, Form.write, Value.depth, depthMembers, depthMembers, Nat.max_zero, Form.bare]

theorem variantWithin {r : Reader α} {f : α → β} {form : β → Form} {name : String} {content : α → Form}
    (variant : ∀ a, form (f a) = .variant name (content a)) (within : r.Within content) (b : β)
    (levels : Nat) (gives : (r.map f).Gives levels b) : (form b).bare.depth ≤ levels + 1 := by
  obtain ⟨a, given, rfl⟩ := mapGives gives
  rw [variant, depthVariant]
  exact Nat.succ_le_succ (within a levels given)

inductive Fields.Weighed : {τ : List Type} → Fields τ → List (String × Bool × Form) → Row τ → Prop
  | nil : Weighed .nil [] ()
  | cons {field : Field α} {rest : Fields τ} {key : String} {marked : Bool} {f : Form}
      {forms : List (String × Bool × Form)} {a : α} {row : Row τ}
      (within : ∀ levels, field.read.Gives levels a → f.bare.depth ≤ levels)
      (marks : field.default = some a → marked = true) (later : rest.Weighed forms row) :
      (Fields.cons field rest).Weighed ((key, marked, f) :: forms) (a, row)

theorem weighedDepth {fields : Fields τ} {forms : List (String × Bool × Form)} {row : Row τ}
    (weighed : fields.Weighed forms row) (made : fields.Made levels row) :
    depthMembers (writeMembers false forms) ≤ levels := by
  induction weighed with
  | nil => exact Nat.zero_le levels
  | cons within marks _ ih =>
    have others := ih made.2
    rw [writeMembers]
    split
    · exact others
    · rename_i kept
      rcases made.1 with given | default
      · exact Nat.max_le.mpr ⟨within levels given, others⟩
      · rw [marks default] at kept
        exact absurd rfl kept

theorem recordWithin {title : Title} {fields : Fields τ} {forms : Row τ → List (String × Bool × Form)}
    (weighed : ∀ row, fields.Weighed (forms row) row) :
    (Reader.record title fields).Within fun row => .record (forms row) := by
  intro row levels gives
  obtain ⟨inner, rfl, made⟩ := recordGives gives
  rw [Form.bare, Form.write, Value.depth]
  exact Nat.succ_le_succ (weighedDepth (weighed row) made)

theorem tagWithin {r : Reader α} {tag name : String} {forms : α → List (String × Bool × Form)}
    (within : r.Within fun a => .record (forms a)) :
    r.Within fun a => .record ((tag, false, .plain (.string name)) :: forms a) := by
  intro a levels gives
  have inside := within a levels gives
  rw [Form.bare, Form.write, Value.depth] at inside ⊢
  change max 0 (depthMembers (writeMembers false (forms a))) + 1 ≤ levels
  rwa [Nat.zero_max]

theorem taggedWithin {wanted tag : String} {variants : List (String × Reader α)} {form : α → Form}
    (within : variants.Forall fun variant => variant.2.Within form) :
    (Reader.tagged wanted tag variants).Within form := by
  intro a levels gives
  obtain ⟨name, read, member, given⟩ := taggedGives gives
  exact List.forall_iff_forall_mem.mp within _ member a levels given

end CompilationUnit.Json
