import CompilationUnit.Proofs.Code.Reading
import CompilationUnit.Proofs.Json.Within

/-! How deep code nests that was read: written bare, no deeper than levels were left for its text. -/
namespace CompilationUnit

open Json

theorem typesForms (types : List ValueType) : encodeTypes types = types.map ValueType.encode := by
  induction types with
  | nil => rfl
  | cons type types ih => exact congrArg (type.encode :: ·) ih

theorem exprsForms (es : List Expr) : formExprs es = es.map Expr.form := by
  induction es with
  | nil => rfl
  | cons e es ih => exact congrArg (e.form :: ·) ih

theorem stmtsForms (ss : List Stmt) : formStmts ss = ss.map Stmt.form := by
  induction ss with
  | nil => rfl
  | cons s ss ih => exact congrArg (s.form :: ·) ih

theorem exprsWithin {r : Reader Expr} (within : r.Within Expr.form) :
    r.list.Within fun es => .list (formExprs es) := by
  simp only [exprsForms]
  exact listWithin within

theorem stmtsWithin {r : Reader Stmt} (within : r.Within Stmt.form) :
    r.list.Within fun ss => .list (formStmts ss) := by
  simp only [stmtsForms]
  exact listWithin within

theorem leafWithin (r : Reader String) : r.Within fun s => .plain (.string s) := flatWithin fun _ => rfl

theorem typeWithin : ValueType.reader.Within fun type => .plain type.encode := by
  refine nestedWithin fun inner within => choiceWithin ?_
  have tensor : (Payload.single (inner.list.map ValueType.tensor)).Within fun type => .plain type.encode := by
    intro type levels gives
    obtain ⟨types, given, rfl⟩ := mapGives gives
    have items : (Value.list (types.map ValueType.encode)).depth ≤ levels :=
      plainListWithin within types levels given
    rw [← typesForms] at items
    exact Nat.succ_le_succ (Nat.max_le.mpr ⟨items, Nat.zero_le _⟩)
  exact ⟨rfl, rfl, rfl, rfl, rfl, rfl, tensor, rfl, rfl⟩

theorem operatorWithin (r : Reader BinaryOp) : r.Within BinaryOp.form := flatWithin fun _ => rfl

theorem exprWithin : Expr.reader.Within Expr.form := by
  refine nestedWithin fun inner within => choiceWithin ?_
  exact ⟨variantWithin (fun _ => rfl) (flatWithin fun _ => rfl),
    variantWithin (fun _ => rfl) (flatWithin fun _ => rfl),
    variantWithin (fun _ => rfl) (flatWithin fun _ => rfl),
    variantWithin (fun _ => rfl) (flatWithin fun _ => rfl), rfl, rfl,
    variantWithin (fun _ => rfl) (recordWithin fun (callee, args, ()) =>
      .cons (within callee) nofun <| .cons (exprsWithin within args) suppliedEmpty.mpr .nil),
    variantWithin (fun _ => rfl) (recordWithin fun (receiver, name, args, modifying, ()) =>
      .cons (within receiver) nofun <| .cons (leafWithin _ name) nofun <|
      .cons (exprsWithin within args) suppliedEmpty.mpr <|
      .cons (fun _ _ => Nat.zero_le _) suppliedFalse.mpr .nil),
    variantWithin (fun _ => rfl) (recordWithin fun (op, left, right, ()) =>
      .cons (operatorWithin _ op) nofun <| .cons (within left) nofun <| .cons (within right) nofun .nil),
    variantWithin (fun _ => rfl) (recordWithin fun (op, operand, ()) =>
      .cons (fun _ _ => Nat.zero_le _) nofun <| .cons (within operand) nofun .nil),
    variantWithin (fun _ => rfl) (recordWithin fun (cond, onTrue, onFalse, ()) =>
      .cons (within cond) nofun <| .cons (within onTrue) nofun <| .cons (within onFalse) nofun .nil),
    variantWithin (fun _ => rfl) (exprsWithin within),
    variantWithin (fun _ => rfl) (exprsWithin within)⟩

theorem otherwiseWithin {r : Reader Stmt} (within : r.Within Stmt.form) :
    r.list.optional.Within formOtherwise := by
  have same : formOtherwise = formOption fun ss => .list (formStmts ss) := by
    funext body
    cases body <;> rfl
  rw [same]
  exact optionWithin (stmtsWithin within)

theorem stmtWithin : Stmt.reader.Within Stmt.form := by
  refine nestedWithin fun inner within => choiceWithin ?_
  exact ⟨variantWithin (fun _ => rfl) (stmtsWithin within),
    variantWithin (fun _ => rfl) (recordWithin fun (type, target, value, ()) =>
      .cons (typeWithin type) suppliedValue.mpr <| .cons (exprWithin target) nofun <|
      .cons (optionWithin exprWithin value) suppliedNone.mpr .nil),
    variantWithin (fun _ => rfl) (recordWithin fun (target, op, value, ()) =>
      .cons (exprWithin target) nofun <|
      .cons (optionWithin (operatorWithin _) op) suppliedNone.mpr <|
      .cons (exprWithin value) nofun .nil),
    variantWithin (fun _ => rfl) exprWithin,
    variantWithin (fun _ => rfl) exprWithin,
    variantWithin (fun _ => rfl) (recordWithin fun (cond, negated, onTrue, onFalse, ()) =>
      .cons (exprWithin cond) nofun <| .cons (fun _ _ => Nat.zero_le _) suppliedFalse.mpr <|
      .cons (stmtsWithin within onTrue) nofun <|
      .cons (otherwiseWithin within onFalse) suppliedNone.mpr .nil),
    variantWithin (fun _ => rfl) (recordWithin fun (count, body, ()) =>
      .cons (exprWithin count) nofun <| .cons (stmtsWithin within body) nofun .nil),
    variantWithin (fun _ => rfl) (recordWithin fun (cond, body, ()) =>
      .cons (exprWithin cond) nofun <| .cons (stmtsWithin within body) nofun .nil),
    variantWithin (fun _ => rfl) (recordWithin fun (body, cond, ()) =>
      .cons (stmtsWithin within body) nofun <| .cons (exprWithin cond) nofun .nil),
    variantWithin (fun _ => rfl) (recordWithin fun (body, caught, handler, ()) =>
      .cons (stmtsWithin within body) nofun <| .cons (namesWithin caught) suppliedEmpty.mpr <|
      .cons (stmtsWithin within handler) nofun .nil)⟩

theorem attributeWithin : Attribute.reader.Within fun a => .plain a.encode := by
  refine choiceWithin ⟨rfl, rfl, rfl, ?_⟩
  intro a levels gives
  obtain ⟨id, _, rfl⟩ := mapGives gives
  have shallow : (Attribute.methodId id).encode.depth = 1 := by cases id <;> rfl
  rw [Form.bare, Form.write, shallow]
  omega

theorem attributesWithin :
    Attribute.reader.list.Within fun attributes => .plain (.ofList Attribute.encode attributes) :=
  plainListWithin attributeWithin

theorem parameterWithin : Parameter.reader.Within Parameter.form :=
  mapWithin (recordWithin fun (name, type, ()) =>
    .cons (leafWithin _ name) nofun <| .cons (typeWithin type) suppliedValue.mpr .nil)

theorem definitionWithin : Definition.reader.Within Definition.form :=
  mapWithin (recordWithin fun (attributes, name, params, returnType, body, ()) =>
    .cons (attributesWithin attributes) suppliedEmpty.mpr <| .cons (leafWithin _ name) nofun <|
    .cons (listWithin parameterWithin params) suppliedEmpty.mpr <|
    .cons (typeWithin returnType) suppliedValue.mpr <|
    .cons (stmtsWithin stmtWithin body) suppliedEmpty.mpr .nil)

theorem asmDefinitionWithin : AsmDefinition.reader.Within AsmDefinition.form :=
  mapWithin (recordWithin fun (attributes, name, params, returnType, code, ()) =>
    .cons (attributesWithin attributes) suppliedEmpty.mpr <| .cons (leafWithin _ name) nofun <|
    .cons (listWithin parameterWithin params) suppliedEmpty.mpr <|
    .cons (typeWithin returnType) suppliedValue.mpr <| .cons (leafWithin _ code) nofun .nil)

end CompilationUnit
