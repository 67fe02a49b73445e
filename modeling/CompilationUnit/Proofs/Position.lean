import CompilationUnit.Code.Traversal
import Mathlib.Data.List.Basic

/-! Positions in code: paths of child numbers, with the children of a statement or an expression counted
in source order. A traversal lists the expressions of a body by their positions in lexicographic order,
each position once. -/
namespace CompilationUnit

inductive Node where
  | stmt (s : Stmt)
  | expr (e : Expr)

def Expr.children : Expr → List Expr
  | .id _ => []
  | .int _ => []
  | .bool _ => []
  | .str _ => []
  | .nil => []
  | .hole => []
  | .call callee args => callee :: args
  | .method receiver _ args _ => receiver :: args
  | .binary _ left right => [left, right]
  | .unary _ operand => [operand]
  | .ternary cond onTrue onFalse => [cond, onTrue, onFalse]
  | .tensor items => items
  | .tuple items => items

def Stmt.children : Stmt → List Node
  | .block body => body.map .stmt
  | .declare _ target value => .expr target :: value.toList.map .expr
  | .assign target _ value => [.expr target, .expr value]
  | .expr value => [.expr value]
  | .ret value => [.expr value]
  | .branch cond _ onTrue onFalse => .expr cond :: (onTrue.map .stmt ++ (onFalse.getD []).map .stmt)
  | .repeatTimes count body => .expr count :: body.map .stmt
  | .whileTrue cond body => .expr cond :: body.map .stmt
  | .doUntil body cond => body.map .stmt ++ [.expr cond]
  | .tryCatch body _ handler => body.map .stmt ++ handler.map .stmt

def Node.children : Node → List Node
  | .stmt s => s.children
  | .expr e => e.children.map .expr

def Node.at? : Node → List Nat → Option Node
  | n, [] => some n
  | n, i :: path => n.children[i]?.bind fun child => child.at? path

def nodeAt? (nodes : List Node) : List Nat → Option Node
  | [] => none
  | i :: path => nodes[i]?.bind fun n => n.at? path

def Definition.at? (d : Definition) (path : List Nat) : Option Node := nodeAt? (d.body.map .stmt) path

def Before (p q : List Nat) : Prop := List.Lex (· < ·) p q

structure Listed (look : List Nat → Option Node) (found : List (List Nat × Expr)) : Prop where
  sorted : found.Pairwise fun a b => Before a.1 b.1
  same : ∀ path e, (path, e) ∈ found ↔ look path = some (.expr e)

def InOrder (look : List Nat → Option Node) (es : List Expr) : Prop :=
  ∃ found, Listed look found ∧ found.map Prod.snd = es

theorem inOrderNone : InOrder (nodeAt? []) [] := by
  refine ⟨[], ⟨.nil, fun path e => ?_⟩, rfl⟩
  cases path <;> simp [nodeAt?]

theorem nodeAtFirst (n : Node) (nodes : List Node) (path : List Nat) :
    nodeAt? (n :: nodes) (0 :: path) = n.at? path := rfl

theorem nodeAtLater (n : Node) (nodes : List Node) (i : Nat) (path : List Nat) :
    nodeAt? (n :: nodes) ((i + 1) :: path) = nodeAt? nodes (i :: path) := rfl

def besideFirst : List Nat → List Nat
  | [] => []
  | i :: path => (i + 1) :: path

theorem besideFirstLess {a b : List Nat} (less : Before a b) :
    Before (besideFirst a) (besideFirst b) := by
  cases less with
  | nil => exact .nil
  | rel less => exact .rel (Nat.succ_lt_succ less)
  | cons less => exact .cons less

theorem firstBelow {nodes : List Node} {path other : List Nat} {n : Node}
    (look : nodeAt? nodes other = some n) : Before (0 :: path) (besideFirst other) := by
  cases other with
  | nil => contradiction
  | cons j rest => exact .rel (Nat.succ_pos j)

theorem besideFirstIff {other path : List Nat} {i : Nat} :
    besideFirst other = (i + 1) :: path ↔ other = i :: path := by
  cases other <;> simp [besideFirst]

theorem inOrderCons {n : Node} {nodes : List Node} {es fs : List Expr} (first : InOrder n.at? es)
    (others : InOrder (nodeAt? nodes) fs) : InOrder (nodeAt? (n :: nodes)) (es ++ fs) := by
  obtain ⟨found, listed, rfl⟩ := first
  obtain ⟨later, listedLater, rfl⟩ := others
  refine ⟨found.map (fun p => (0 :: p.1, p.2)) ++ later.map (fun p => (besideFirst p.1, p.2)),
    ⟨?_, ?_⟩, by simp [Function.comp_def]⟩
  · refine List.pairwise_append.mpr ⟨?_, ?_, ?_⟩
    · exact listed.sorted.map _ fun a b less => .cons less
    · exact listedLater.sorted.map _ fun a b less => besideFirstLess less
    · intro a left b right
      obtain ⟨p, _, rfl⟩ := List.mem_map.mp left
      obtain ⟨q, member, rfl⟩ := List.mem_map.mp right
      exact firstBelow ((listedLater.same q.1 q.2).mp member)
  · intro path e
    simp only [List.mem_append, List.mem_map, Prod.exists, Prod.mk.injEq]
    match path with
    | [] =>
      refine ⟨?_, nofun⟩
      rintro (⟨p, a, _, absurd, _⟩ | ⟨p, a, member, same, _⟩)
      · contradiction
      · have look := (listedLater.same p a).mp member
        cases p <;> contradiction
    | 0 :: path =>
      rw [nodeAtFirst, ← listed.same]
      constructor
      · rintro (⟨p, a, member, same, rfl⟩ | ⟨p, a, member, same, _⟩)
        · cases same
          exact member
        · cases p <;> simp [besideFirst] at same
      · intro member
        exact .inl ⟨path, e, member, rfl, rfl⟩
    | (i + 1) :: path =>
      rw [nodeAtLater, ← listedLater.same]
      constructor
      · rintro (⟨p, a, _, absurd, _⟩ | ⟨p, a, member, same, rfl⟩)
        · simp at absurd
        · rw [besideFirstIff.mp same] at member
          exact member
      · intro member
        exact .inr ⟨i :: path, e, member, rfl, rfl⟩

theorem inOrderOnly {n : Node} {es : List Expr} (first : InOrder n.at? es) :
    InOrder (nodeAt? [n]) es := by
  simpa using inOrderCons first inOrderNone

theorem inOrderExpr {e : Expr} {es : List Expr} (below : InOrder (nodeAt? (e.children.map .expr)) es) :
    InOrder (Node.expr e).at? (e :: es) := by
  obtain ⟨found, listed, rfl⟩ := below
  refine ⟨([], e) :: found, ⟨?_, ?_⟩, rfl⟩
  · refine List.pairwise_cons.mpr ⟨?_, listed.sorted⟩
    intro p member
    have look := (listed.same p.1 p.2).mp member
    match path : p.1 with
    | [] =>
      rw [path] at look
      contradiction
    | i :: rest => exact .nil
  · intro path other
    cases path with
    | nil => simp [Node.at?, listed.same, nodeAt?, eq_comm]
    | cons i path => simp [listed.same, nodeAt?, Node.at?, Node.children]

theorem inOrderStmt {s : Stmt} {es : List Expr} (below : InOrder (nodeAt? s.children) es) :
    InOrder (Node.stmt s).at? es := by
  obtain ⟨found, listed, rfl⟩ := below
  refine ⟨found, ⟨listed.sorted, ?_⟩, rfl⟩
  intro path e
  rw [listed.same]
  cases path <;> simp [nodeAt?, Node.at?, Node.children]

mutual

theorem exprInOrder : (e : Expr) → InOrder (Node.expr e).at? e.all
  | .id _ => inOrderExpr inOrderNone
  | .int _ => inOrderExpr inOrderNone
  | .bool _ => inOrderExpr inOrderNone
  | .str _ => inOrderExpr inOrderNone
  | .nil => inOrderExpr inOrderNone
  | .hole => inOrderExpr inOrderNone
  | .call callee args => inOrderExpr (inOrderCons (exprInOrder callee) (exprsInOrder args))
  | .method receiver _ args _ =>
    inOrderExpr (inOrderCons (exprInOrder receiver) (exprsInOrder args))
  | .binary _ left right =>
    inOrderExpr (inOrderCons (exprInOrder left) (inOrderOnly (exprInOrder right)))
  | .unary _ operand => inOrderExpr (inOrderOnly (exprInOrder operand))
  | .ternary cond onTrue onFalse => by
    rw [Expr.all, List.append_assoc]
    exact inOrderExpr (inOrderCons (exprInOrder cond)
      (inOrderCons (exprInOrder onTrue) (inOrderOnly (exprInOrder onFalse))))
  | .tensor items => inOrderExpr (exprsInOrder items)
  | .tuple items => inOrderExpr (exprsInOrder items)

theorem exprsInOrder : (es : List Expr) → InOrder (nodeAt? (es.map .expr)) (allOf es)
  | [] => inOrderNone
  | e :: es => inOrderCons (exprInOrder e) (exprsInOrder es)

end

def shown (visits : List Visit) : List Expr := allOf (visits.filterMap Visit.expr?)

theorem allOfAppend (es fs : List Expr) : allOf (es ++ fs) = allOf es ++ allOf fs := by
  induction es with
  | nil => rfl
  | cons e es ih => simp [allOf, ih]

theorem shownAppend (us vs : List Visit) : shown (us ++ vs) = shown us ++ shown vs := by
  simp [shown, allOfAppend]

theorem shownInner (s : Stmt) (inner : List Visit) :
    shown (.enter s :: (inner ++ [.leave s])) = shown inner := by
  change shown (inner ++ [.leave s]) = shown inner
  rw [shownAppend]
  exact List.append_nil _

theorem inOrderInner {s : Stmt} {inner : List Visit} (below : InOrder (nodeAt? s.children) (shown inner)) :
    InOrder (Node.stmt s).at? (shown (.enter s :: (inner ++ [.leave s]))) := by
  rw [shownInner]
  exact inOrderStmt below

mutual

theorem stmtInOrder : (s : Stmt) → InOrder (Node.stmt s).at? (shown s.visits)
  | .block body => inOrderInner (stmtsOnly body)
  | .declare _ target none => inOrderInner (inOrderCons (exprInOrder target) inOrderNone)
  | .declare _ target (some value) =>
    inOrderInner (inOrderCons (exprInOrder target) (inOrderCons (exprInOrder value) inOrderNone))
  | .assign target _ value =>
    inOrderInner (inOrderCons (exprInOrder target) (inOrderCons (exprInOrder value) inOrderNone))
  | .expr value => inOrderInner (inOrderCons (exprInOrder value) inOrderNone)
  | .ret value => inOrderInner (inOrderCons (exprInOrder value) inOrderNone)
  | .branch cond _ onTrue none => by
    refine inOrderInner (inOrderCons (exprInOrder cond) ?_)
    rw [Option.getD_none, List.map_nil, List.append_nil]
    exact stmtsOnly onTrue
  | .branch cond _ onTrue (some onFalse) => by
    refine inOrderInner (inOrderCons (exprInOrder cond) ?_)
    change InOrder _ (shown (visitsOf onTrue ++ visitsOf onFalse))
    rw [shownAppend]
    exact stmtsInOrder onTrue (stmtsOnly onFalse)
  | .repeatTimes count body => inOrderInner (inOrderCons (exprInOrder count) (stmtsOnly body))
  | .whileTrue cond body => inOrderInner (inOrderCons (exprInOrder cond) (stmtsOnly body))
  | .doUntil body cond => by
    refine inOrderInner ?_
    rw [shownAppend]
    exact stmtsInOrder body (inOrderCons (exprInOrder cond) inOrderNone)
  | .tryCatch body _ handler => by
    refine inOrderInner ?_
    rw [shownAppend]
    exact stmtsInOrder body (stmtsOnly handler)

theorem stmtsInOrder : (ss : List Stmt) → {back : List Node} → {fs : List Expr} →
    InOrder (nodeAt? back) fs → InOrder (nodeAt? (ss.map .stmt ++ back)) (shown (visitsOf ss) ++ fs)
  | [], _, _, others => others
  | s :: ss, _, _, others => by
    rw [visitsOf, shownAppend, List.append_assoc]
    exact inOrderCons (stmtInOrder s) (stmtsInOrder ss others)

theorem stmtsOnly (ss : List Stmt) : InOrder (nodeAt? (ss.map .stmt)) (shown (visitsOf ss)) := by
  simpa using stmtsInOrder ss inOrderNone

end

theorem expressionsInOrder (d : Definition) : InOrder d.at? d.expressions :=
  stmtsOnly d.body

end CompilationUnit
