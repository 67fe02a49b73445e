import CompilationUnit.Proofs.Code.Forms

/-! Code read from its forms: however the form of a piece of code is spelled, it is read as that piece of
code again. -/
namespace CompilationUnit

open Json

mutual

theorem readsType : (type : ValueType) → ∀ n,
    (Reader.layers ValueType.layer (n + 1)).Reads n type.encode type
  | .int => readsLayer fun _ => readsBare rfl
  | .cell => readsLayer fun _ => readsBare rfl
  | .slice => readsLayer fun _ => readsBare rfl
  | .builder => readsLayer fun _ => readsBare rfl
  | .cont => readsLayer fun _ => readsBare rfl
  | .tuple => readsLayer fun _ => readsBare rfl
  | .tensor items => readsLayer fun n => readsVariant rfl (readsMap _ (readsList (readsTypes items n)))
  | .unit => readsLayer fun _ => readsBare rfl
  | .hole => readsLayer fun _ => readsBare rfl

theorem readsTypes : (types : List ValueType) → ∀ n,
    List.Forall₂ ((Reader.layers ValueType.layer (n + 1)).Reads n) (encodeTypes types) types
  | [], _ => .nil
  | type :: types, n => .cons (readsType type n) (readsTypes types n)

end

mutual

theorem typeFits : (type : ValueType) → type.encode.Fits
  | .int => trivial
  | .cell => trivial
  | .slice => trivial
  | .builder => trivial
  | .cont => trivial
  | .tuple => trivial
  | .tensor items => ⟨typesFit items, trivial⟩
  | .unit => trivial
  | .hole => trivial

theorem typesFit : (types : List ValueType) → FitsItems (encodeTypes types)
  | [] => trivial
  | type :: types => ⟨typeFits type, typesFit types⟩

end

variable {bound : Nat}

theorem takesType (type : ValueType) : ValueType.reader.Takes bound (.plain type.encode) type :=
  takesPlain (typeFits type) (readsNested (readsType type))

theorem takesBinaryOp (op : BinaryOp) : BinaryOp.reader.Takes bound op.form op := by
  refine takesPlain trivial (readsBare ?_)
  cases op <;> rfl

theorem operatorPresent (op : BinaryOp) : op.form ≠ .plain .null := nofun

theorem takesUnaryOp (op : UnaryOp) : UnaryOp.reader.Takes bound (.plain op.encode) op := by
  refine takesPlain trivial (readsBare ?_)
  cases op <;> rfl

theorem suppliedEmpty {items : List α} : items.isEmpty = true ↔ some [] = some items := by
  rw [List.isEmpty_iff, Option.some_inj, eq_comm]

theorem suppliedFalse {b : Bool} : (!b) = true ↔ some false = some b := by
  rw [Bool.not_eq_true', Option.some_inj, eq_comm]

theorem suppliedNone {value : Option α} : value.isNone = true ↔ some none = some value := by
  rw [Option.isNone_iff_eq_none, Option.some_inj, eq_comm]

theorem suppliedValue [DecidableEq α] {a default : α} :
    decide (a = default) = true ↔ some default = some a := by
  rw [decide_eq_true_iff, Option.some_inj, eq_comm]

/- Along the expression, with any number of layers left: its parts are read by the layers inside. -/
mutual

theorem takesExpr : (e : Expr) → ∀ n, (Reader.layers Expr.layer (n + 1)).Takes n e.form e
  | .id name => takesLayer fun _ => takesVariant rfl (takesMap _ (takesString name))
  | .int value => takesLayer fun _ => takesVariant rfl (takesMap _ (takesInt64 value))
  | .bool value => takesLayer fun _ => takesVariant rfl (takesMap _ (takesBoolean value))
  | .str value => takesLayer fun _ => takesVariant rfl (takesMap _ (takesString value))
  | .nil => takesLayer fun _ => takesPlain trivial (readsBare rfl)
  | .hole => takesLayer fun _ => takesPlain trivial (readsBare rfl)
  | .call callee args => takesLayer fun n => by
    have formed : (Expr.callFields _).Formed n _ (callee, args, ()) :=
      .always (takesExpr callee n) <| .perhaps (takesList (takesExprs args n)) suppliedEmpty.mp .nil
    exact takesVariant rfl (takesMap _ (takesRecord formed (by decide : ["fun", "args"].Nodup)))
  | .method receiver name args modifying => takesLayer fun n => by
    have formed : (Expr.methodFields _).Formed n _ (receiver, name, args, modifying, ()) :=
      .always (takesExpr receiver n) <| .always (takesString name) <|
      .perhaps (takesList (takesExprs args n)) suppliedEmpty.mp <|
      .perhaps (takesBoolean modifying) suppliedFalse.mp .nil
    exact takesVariant rfl (takesMap _ (takesRecord formed
      (by decide : ["receiver", "method", "args", "modifying"].Nodup)))
  | .binary op left right => takesLayer fun n => by
    have formed : (Expr.binaryFields _).Formed n _ (op, left, right, ()) :=
      .always (takesBinaryOp op) <| .always (takesExpr left n) <| .always (takesExpr right n) .nil
    exact takesVariant rfl (takesMap _ (takesRecord formed (by decide : ["op", "lhs", "rhs"].Nodup)))
  | .unary op operand => takesLayer fun n => by
    have formed : (Expr.unaryFields _).Formed n _ (op, operand, ()) :=
      .always (takesUnaryOp op) <| .always (takesExpr operand n) .nil
    exact takesVariant rfl (takesMap _ (takesRecord formed (by decide : ["op", "operand"].Nodup)))
  | .ternary cond onTrue onFalse => takesLayer fun n => by
    have formed : (Expr.ternaryFields _).Formed n _ (cond, onTrue, onFalse, ()) :=
      .always (takesExpr cond n) <| .always (takesExpr onTrue n) <| .always (takesExpr onFalse n) .nil
    exact takesVariant rfl (takesMap _ (takesRecord formed (by decide : ["cond", "then", "otherwise"].Nodup)))
  | .tensor items => takesLayer fun n => takesVariant rfl (takesMap _ (takesList (takesExprs items n)))
  | .tuple items => takesLayer fun n => takesVariant rfl (takesMap _ (takesList (takesExprs items n)))

theorem takesExprs : (es : List Expr) → ∀ n,
    List.Forall₂ ((Reader.layers Expr.layer (n + 1)).Takes n) (formExprs es) es
  | [], _ => .nil
  | e :: es, n => .cons (takesExpr e n) (takesExprs es n)

end

theorem takesAnyExpr (e : Expr) : Expr.reader.Takes bound e.form e := takesNested (takesExpr e)

theorem exprPresent (e : Expr) : e.form ≠ .plain .null := by cases e <;> nofun

mutual

theorem takesStmt : (s : Stmt) → ∀ n, (Reader.layers Stmt.layer (n + 1)).Takes n s.form s
  | .block body => takesLayer fun n => takesVariant rfl (takesMap _ (takesList (takesStmts body n)))
  | .declare type target value => takesLayer fun n => by
    have formed : Stmt.declareFields.Formed n _ (type, target, value, ()) :=
      .perhaps (takesType type) suppliedValue.mp <| .always (takesAnyExpr target) <|
      .perhaps (takesOption exprPresent fun e _ => takesAnyExpr e) suppliedNone.mp .nil
    exact takesVariant rfl (takesMap _ (takesRecord formed (by decide : ["ty", "target", "value"].Nodup)))
  | .assign target op value => takesLayer fun n => by
    have formed : Stmt.assignFields.Formed n _ (target, op, value, ()) :=
      .always (takesAnyExpr target) <|
      .perhaps (takesOption operatorPresent fun op _ => takesBinaryOp op) suppliedNone.mp <|
      .always (takesAnyExpr value) .nil
    exact takesVariant rfl (takesMap _ (takesRecord formed (by decide : ["target", "op", "value"].Nodup)))
  | .expr value => takesLayer fun _ => takesVariant rfl (takesMap _ (takesAnyExpr value))
  | .ret value => takesLayer fun _ => takesVariant rfl (takesMap _ (takesAnyExpr value))
  | .branch cond negated onTrue onFalse => takesLayer fun n => by
    have formed : (Stmt.branchFields _).Formed n _ (cond, negated, onTrue, onFalse, ()) :=
      .always (takesAnyExpr cond) <| .perhaps (takesBoolean negated) suppliedFalse.mp <|
      .always (takesList (takesStmts onTrue n)) <|
      .perhaps (takesOtherwise onFalse n) suppliedNone.mp .nil
    exact takesVariant rfl (takesMap _ (takesRecord formed
      (by decide : ["cond", "negated", "then", "otherwise"].Nodup)))
  | .repeatTimes count body => takesLayer fun n => by
    have formed : (Stmt.repeatFields _).Formed n _ (count, body, ()) :=
      .always (takesAnyExpr count) <| .always (takesList (takesStmts body n)) .nil
    exact takesVariant rfl (takesMap _ (takesRecord formed (by decide : ["count", "body"].Nodup)))
  | .whileTrue cond body => takesLayer fun n => by
    have formed : (Stmt.whileFields _).Formed n _ (cond, body, ()) :=
      .always (takesAnyExpr cond) <| .always (takesList (takesStmts body n)) .nil
    exact takesVariant rfl (takesMap _ (takesRecord formed (by decide : ["cond", "body"].Nodup)))
  | .doUntil body cond => takesLayer fun n => by
    have formed : (Stmt.doUntilFields _).Formed n _ (body, cond, ()) :=
      .always (takesList (takesStmts body n)) <| .always (takesAnyExpr cond) .nil
    exact takesVariant rfl (takesMap _ (takesRecord formed (by decide : ["body", "cond"].Nodup)))
  | .tryCatch body caught handler => takesLayer fun n => by
    have formed : (Stmt.tryCatchFields _).Formed n _ (body, caught, handler, ()) :=
      .always (takesList (takesStmts body n)) <| .perhaps (takesNames caught) suppliedEmpty.mp <|
      .always (takesList (takesStmts handler n)) .nil
    exact takesVariant rfl (takesMap _ (takesRecord formed
      (by decide : ["body", "catch_vars", "handler"].Nodup)))

theorem takesStmts : (ss : List Stmt) → ∀ n,
    List.Forall₂ ((Reader.layers Stmt.layer (n + 1)).Takes n) (formStmts ss) ss
  | [], _ => .nil
  | s :: ss, n => .cons (takesStmt s n) (takesStmts ss n)

theorem takesOtherwise : (body : Option (List Stmt)) → ∀ n,
    (Reader.layers Stmt.layer (n + 1)).list.optional.Takes n (formOtherwise body) body
  | none, _ => takesNone _
  | some body, n => takesSome nofun (takesList (takesStmts body n))

end

theorem readsAttribute (a : Attribute) : Attribute.reader.Reads bound a.encode a := by
  cases a with
  | impure => exact readsBare rfl
  | inlined => exact readsBare rfl
  | inlinedByRef => exact readsBare rfl
  | methodId id =>
    refine readsFewer (readsVariant rfl (readsMap _ ?_))
    cases id with
    | none => exact readsNone _
    | some n => exact readsSome nofun (readsUint32 n)

theorem attributeFits (a : Attribute) : a.encode.Fits := by
  cases a with
  | impure => trivial
  | inlined => trivial
  | inlinedByRef => trivial
  | methodId id =>
    cases id with
    | none => exact ⟨trivial, trivial⟩
    | some n => exact ⟨uint32Fits n, trivial⟩

theorem takesAttributes (attributes : List Attribute) :
    Attribute.reader.list.Takes bound (.plain (.ofList Attribute.encode attributes)) attributes :=
  takesPlainList _ attributeFits readsAttribute attributes

theorem takesStmtList (body : List Stmt) : Stmt.reader.list.Takes bound (.list (formStmts body)) body := by
  refine takesList ?_
  induction body with
  | nil => exact .nil
  | cons s ss ih => exact .cons (takesNested (takesStmt s)) ih

theorem takesParameter (p : Parameter) : Parameter.reader.Takes bound p.form p := by
  have formed : Parameter.fields.Formed bound _ (p.name, p.type, ()) :=
    .always (takesString p.name) <| .perhaps (takesType p.type) suppliedValue.mp .nil
  exact takesMap _ (takesRecord formed (by decide : ["name", "ty"].Nodup))

theorem takesDefinition (d : Definition) : Definition.reader.Takes bound d.form d := by
  have formed : Definition.fields.Formed bound _ (d.attributes, d.name, d.params, d.returnType, d.body, ()) :=
    .perhaps (takesAttributes d.attributes) suppliedEmpty.mp <| .always (takesString d.name) <|
    .perhaps (takesFormList fun p _ => takesParameter p) suppliedEmpty.mp <|
    .perhaps (takesType d.returnType) suppliedValue.mp <|
    .perhaps (takesStmtList d.body) suppliedEmpty.mp .nil
  exact takesMap _ (takesRecord formed (by decide : ["attrs", "name", "params", "return_ty", "body"].Nodup))

theorem takesAsmDefinition (d : AsmDefinition) : AsmDefinition.reader.Takes bound d.form d := by
  have formed : AsmDefinition.fields.Formed bound _
      (d.attributes, d.name, d.params, d.returnType, d.code, ()) :=
    .perhaps (takesAttributes d.attributes) suppliedEmpty.mp <| .always (takesString d.name) <|
    .perhaps (takesFormList fun p _ => takesParameter p) suppliedEmpty.mp <|
    .perhaps (takesType d.returnType) suppliedValue.mp <| .always (takesString d.code) .nil
  exact takesMap _ (takesRecord formed (by decide : ["attrs", "name", "params", "return_ty", "asm"].Nodup))

end CompilationUnit
