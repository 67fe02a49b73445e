import CompilationUnit.Proofs.Position
import Mathlib.Data.List.Lex
import Mathlib.Data.List.Sort

/-! Traversals in preorder. A traversal with a callback meets the expressions of a body in the order of
their positions; what stands in an expression is met right after it, without a break, and a statement is
left behind before the next one begins. -/
namespace CompilationUnit

universe u

section Callback

variable {σ : Type u} (callback : σ → Expr → σ)

mutual

def Expr.forEach : Expr → σ → σ
  | .id name, s => callback s (.id name)
  | .int value, s => callback s (.int value)
  | .bool value, s => callback s (.bool value)
  | .str value, s => callback s (.str value)
  | .nil, s => callback s .nil
  | .hole, s => callback s .hole
  | .call callee args, s => exprsForEach args (callee.forEach (callback s (.call callee args)))
  | .method receiver name args modifying, s =>
    exprsForEach args (receiver.forEach (callback s (.method receiver name args modifying)))
  | .binary op left right, s => right.forEach (left.forEach (callback s (.binary op left right)))
  | .unary op operand, s => operand.forEach (callback s (.unary op operand))
  | .ternary cond onTrue onFalse, s =>
    onFalse.forEach (onTrue.forEach (cond.forEach (callback s (.ternary cond onTrue onFalse))))
  | .tensor items, s => exprsForEach items (callback s (.tensor items))
  | .tuple items, s => exprsForEach items (callback s (.tuple items))

def exprsForEach : List Expr → σ → σ
  | [], s => s
  | e :: es, s => exprsForEach es (e.forEach s)

end

mutual

def Stmt.forEachExpression : Stmt → σ → σ
  | .block body, s => stmtsForEachExpression body s
  | .declare _ target none, s => target.forEach callback s
  | .declare _ target (some value), s => value.forEach callback (target.forEach callback s)
  | .assign target _ value, s => value.forEach callback (target.forEach callback s)
  | .expr value, s => value.forEach callback s
  | .ret value, s => value.forEach callback s
  | .branch cond _ onTrue none, s => stmtsForEachExpression onTrue (cond.forEach callback s)
  | .branch cond _ onTrue (some onFalse), s =>
    stmtsForEachExpression onFalse (stmtsForEachExpression onTrue (cond.forEach callback s))
  | .repeatTimes count body, s => stmtsForEachExpression body (count.forEach callback s)
  | .whileTrue cond body, s => stmtsForEachExpression body (cond.forEach callback s)
  | .doUntil body cond, s => cond.forEach callback (stmtsForEachExpression body s)
  | .tryCatch body _ handler, s => stmtsForEachExpression handler (stmtsForEachExpression body s)

def stmtsForEachExpression : List Stmt → σ → σ
  | [], s => s
  | statement :: statements, s => stmtsForEachExpression statements (statement.forEachExpression s)

end

def Definition.forEachExpression (d : Definition) (s : σ) : σ := stmtsForEachExpression callback d.body s

mutual

@[simp]
theorem exprForEach : (e : Expr) → (s : σ) → e.forEach callback s = e.all.foldl callback s
  | .id _, _ => rfl
  | .int _, _ => rfl
  | .bool _, _ => rfl
  | .str _, _ => rfl
  | .nil, _ => rfl
  | .hole, _ => rfl
  | .call callee args, s => by simp [Expr.forEach, Expr.all, exprForEach callee, exprsForEachAll args]
  | .method receiver _ args _, s => by
    simp [Expr.forEach, Expr.all, exprForEach receiver, exprsForEachAll args]
  | .binary _ left right, s => by simp [Expr.forEach, Expr.all, exprForEach left, exprForEach right]
  | .unary _ operand, s => by simp [Expr.forEach, Expr.all, exprForEach operand]
  | .ternary cond onTrue onFalse, s => by
    simp [Expr.forEach, Expr.all, exprForEach cond, exprForEach onTrue, exprForEach onFalse]
  | .tensor items, s => by simp [Expr.forEach, Expr.all, exprsForEachAll items]
  | .tuple items, s => by simp [Expr.forEach, Expr.all, exprsForEachAll items]

@[simp]
theorem exprsForEachAll : (es : List Expr) → (s : σ) →
    exprsForEach callback es s = (allOf es).foldl callback s
  | [], _ => rfl
  | e :: es, s => by simp [exprsForEach, allOf, exprForEach e, exprsForEachAll es]

end

@[simp]
theorem shownEnter (statement : Stmt) (visits : List Visit) :
    shown (.enter statement :: visits) = shown visits := rfl

@[simp]
theorem shownExpr (e : Expr) (visits : List Visit) : shown (.expr e :: visits) = e.all ++ shown visits := rfl

@[simp]
theorem shownLeave (statement : Stmt) (visits : List Visit) :
    shown (.leave statement :: visits) = shown visits := rfl

@[simp]
theorem shownNothing : shown [] = [] := rfl

mutual

theorem stmtForEach : (statement : Stmt) → (s : σ) →
    statement.forEachExpression callback s = (shown statement.visits).foldl callback s
  | .block body, s => by simp [Stmt.forEachExpression, Stmt.visits, shownAppend, stmtsForEach body]
  | .declare _ target none, s => by simp [Stmt.forEachExpression, Stmt.visits]
  | .declare _ target (some value), s => by simp [Stmt.forEachExpression, Stmt.visits]
  | .assign target _ value, s => by simp [Stmt.forEachExpression, Stmt.visits]
  | .expr value, s => by simp [Stmt.forEachExpression, Stmt.visits]
  | .ret value, s => by simp [Stmt.forEachExpression, Stmt.visits]
  | .branch cond _ onTrue none, s => by
    simp [Stmt.forEachExpression, Stmt.visits, shownAppend, stmtsForEach onTrue]
  | .branch cond _ onTrue (some onFalse), s => by
    simp [Stmt.forEachExpression, Stmt.visits, shownAppend, stmtsForEach onTrue, stmtsForEach onFalse]
  | .repeatTimes count body, s => by
    simp [Stmt.forEachExpression, Stmt.visits, shownAppend, stmtsForEach body]
  | .whileTrue cond body, s => by
    simp [Stmt.forEachExpression, Stmt.visits, shownAppend, stmtsForEach body]
  | .doUntil body cond, s => by
    simp [Stmt.forEachExpression, Stmt.visits, shownAppend, stmtsForEach body]
  | .tryCatch body _ handler, s => by
    simp [Stmt.forEachExpression, Stmt.visits, shownAppend, stmtsForEach body, stmtsForEach handler]

theorem stmtsForEach : (statements : List Stmt) → (s : σ) →
    stmtsForEachExpression callback statements s = (shown (visitsOf statements)).foldl callback s
  | [], _ => rfl
  | statement :: statements, s => by
    simp [stmtsForEachExpression, visitsOf, shownAppend, stmtForEach statement, stmtsForEach statements]

end

theorem forEachExpressionFolds (d : Definition) (s : σ) :
    d.forEachExpression callback s = d.expressions.foldl callback s :=
  stmtsForEach callback d.body s

end Callback

section Paths

variable {p q x y z : List Nat}

theorem prefixBetween (first : Before x y) (second : Before y z) (left : p <+: x) (right : p <+: z) :
    p <+: y := by
  induction p generalizing x y z with
  | nil => exact List.nil_prefix
  | cons i p ih =>
    obtain ⟨l, rfl⟩ := left
    obtain ⟨m, rfl⟩ := right
    cases first with
    | rel less =>
      cases second with
      | rel more => exact absurd less (Nat.lt_asymm more)
      | cons _ => exact absurd less (Nat.lt_irrefl i)
    | cons first =>
      cases second with
      | rel more => exact absurd more (Nat.lt_irrefl i)
      | cons second =>
        have within := ih first second (List.prefix_append _ _) (List.prefix_append _ _)
        exact List.cons_prefix_cons.mpr ⟨rfl, within⟩

theorem beforeBelow (less : Before p q) (apart : ¬ p <+: q) (left : p <+: x) (right : q <+: y) :
    Before x y := by
  obtain ⟨l, rfl⟩ := left
  obtain ⟨m, rfl⟩ := right
  induction less with
  | nil => exact absurd List.nil_prefix apart
  | rel less => exact .rel less
  | cons less ih => exact .cons (ih fun within => apart (List.cons_prefix_cons.mpr ⟨rfl, within⟩))

theorem beforeAppend (less : Before x y) (path : List Nat) : Before (path ++ x) (path ++ y) := by
  induction path with
  | nil => exact less
  | cons i path ih => exact .cons ih

theorem beforeIrrefl (path : List Nat) : ¬ Before path path := lt_irrefl path

theorem beforeAsymm (less : Before p q) : ¬ Before q p := (show p < q from less).asymm

end Paths

theorem sortedUnique {l m : List (List Nat × Expr)} (left : l.Pairwise fun a b => Before a.1 b.1)
    (right : m.Pairwise fun a b => Before a.1 b.1) (same : ∀ p, p ∈ l ↔ p ∈ m) : l = m := by
  have irrefl : Std.Irrefl fun a b : List Nat × Expr => Before a.1 b.1 := ⟨fun a => beforeIrrefl a.1⟩
  have antisymm : Std.Antisymm fun a b : List Nat × Expr => Before a.1 b.1 :=
    ⟨fun a b first second => absurd second (beforeAsymm first)⟩
  exact left.eq_of_mem_iff right same

theorem runBetween {r : α → α → Prop} {inside : α → Prop} {l : List α} (sorted : l.Pairwise r)
    (between : ∀ a b c, r a b → r b c → inside a → inside c → inside b) :
    ∃ before run behind, l = before ++ run ++ behind ∧ (∀ a ∈ run, inside a) ∧
      ∀ a ∈ before ++ behind, ¬ inside a := by
  induction l with
  | nil => exact ⟨[], [], [], rfl, by simp, by simp⟩
  | cons a l ih =>
    obtain ⟨first, sorted⟩ := List.pairwise_cons.mp sorted
    obtain ⟨before, run, behind, rfl, within, without⟩ := ih sorted
    by_cases starts : inside a
    · cases run with
      | nil => exact ⟨[], [a], before ++ behind, by simp, by simpa using starts, without⟩
      -- What stood between the first item and the run would lie between two items of the kind.
      | cons b run =>
        have adjacent : before = [] := by
          refine List.eq_nil_iff_forall_not_mem.mpr fun c member => ?_
          have less : r c b := by
            rw [List.append_assoc] at sorted
            exact (List.pairwise_append.mp sorted).2.2 c member b (by simp)
          exact without c (by simp [member])
            (between a c b (first c (by simp [member])) less starts (within b List.mem_cons_self))
        subst adjacent
        exact ⟨[], a :: b :: run, behind, rfl, List.forall_mem_cons.mpr ⟨starts, within⟩, without⟩
    · exact ⟨a :: before, run, behind, rfl, within, List.forall_mem_cons.mpr ⟨starts, without⟩⟩

theorem pairInOrder {r : α → α → Prop} {l : List α} (sorted : l.Pairwise r)
    (asymm : ∀ {a b}, r a b → ¬ r b a) {a b : α} (left : a ∈ l) (right : b ∈ l) (less : r a b) :
    [a, b].Sublist l := by
  obtain ⟨before, behind, rfl⟩ := List.append_of_mem left
  obtain ⟨_, _, across⟩ := List.pairwise_append.mp sorted
  rcases List.mem_append.mp right with earlier | later
  · exact absurd (across b earlier a List.mem_cons_self) (asymm less)
  · rcases List.mem_cons.mp later with rfl | later
    · exact absurd less (asymm less)
    · have behindFirst : [a, b].Sublist (a :: behind) :=
        List.cons_sublist_cons.mpr (List.singleton_sublist.mpr later)
      exact List.sublist_append_of_sublist_right behindFirst

theorem Node.atAppend (n : Node) (path rest : List Nat) :
    n.at? (path ++ rest) = (n.at? path).bind fun m => m.at? rest := by
  induction path generalizing n with
  | nil => rfl
  | cons i path ih => simp [Node.at?, ih, Option.bind_assoc]

theorem atBelow {nodes : List Node} {path : List Nat} {n : Node} (look : nodeAt? nodes path = some n)
    (rest : List Nat) : nodeAt? nodes (path ++ rest) = n.at? rest := by
  cases path with
  | nil => contradiction
  | cons i path =>
    have below : nodeAt? nodes (i :: (path ++ rest)) =
        (nodeAt? nodes (i :: path)).bind fun m => m.at? rest := by
      simp [nodeAt?, Node.atAppend, Option.bind_assoc]
    rw [List.cons_append, below, look, Option.bind_some]

variable {d : Definition} {found : List (List Nat × Expr)}

theorem belowIff {path : List Nat} {e : Expr} (look : d.at? path = some (.expr e))
    {under : List (List Nat × Expr)} (listed : Listed (nodeAt? (e.children.map .expr)) under)
    (p : List Nat × Expr) :
    d.at? p.1 = some (.expr p.2) ∧ path <+: p.1 ↔
      p ∈ (path, e) :: under.map fun q => (path ++ q.1, q.2) := by
  obtain ⟨position, f⟩ := p
  have inner : ∀ i rest, d.at? (path ++ i :: rest) = some (.expr f) ↔ (i :: rest, f) ∈ under := by
    intro i rest
    rw [listed.same, Definition.at?, atBelow look]
    rfl
  simp only [List.mem_cons, List.mem_map, Prod.mk.injEq, Prod.exists]
  constructor
  · rintro ⟨there, rest, rfl⟩
    cases rest with
    | nil =>
      rw [List.append_nil, look] at there
      cases there
      exact .inl ⟨List.append_nil path, rfl⟩
    | cons i rest => exact .inr ⟨_, f, (inner i rest).mp there, rfl, rfl⟩
  · rintro (⟨rfl, rfl⟩ | ⟨rest, g, member, rfl, rfl⟩)
    · exact ⟨look, List.prefix_rfl⟩
    · cases rest with
      | nil => nomatch (listed.same _ _).mp member
      | cons i rest => exact ⟨(inner i rest).mpr member, List.prefix_append _ _⟩

theorem belowSorted (path : List Nat) (e : Expr) {nodes : List Node} {under : List (List Nat × Expr)}
    (listed : Listed (nodeAt? nodes) under) :
    ((path, e) :: under.map fun q => (path ++ q.1, q.2)).Pairwise fun a b => Before a.1 b.1 := by
  refine List.pairwise_cons.mpr ⟨?_, listed.sorted.map _ fun a b less => beforeAppend less path⟩
  intro p member
  obtain ⟨⟨rest, f⟩, placed, rfl⟩ := List.mem_map.mp member
  cases rest with
  | nil => nomatch (listed.same _ _).mp placed
  | cons i rest => simpa using beforeAppend (.nil : Before [] (i :: rest)) path

structure Contiguous (found : List (List Nat × Expr)) (path : List Nat) (e : Expr)
    (before below behind : List (List Nat × Expr)) : Prop where
  split : found = before ++ (path, e) :: (below ++ behind)
  inner : below.map Prod.snd = allOf e.children
  inside : ∀ p ∈ below, path <+: p.1
  outside : ∀ p ∈ before ++ behind, ¬ path <+: p.1

theorem expressionContiguous (listed : Listed d.at? found) {path : List Nat} {e : Expr}
    (look : d.at? path = some (.expr e)) :
    ∃ before below behind, Contiguous found path e before below behind := by
  obtain ⟨under, listedUnder, inner⟩ := exprsInOrder e.children
  obtain ⟨before, run, behind, rfl, inside, outside⟩ := runBetween listed.sorted
    fun a b c first second (left : path <+: a.1) (right : path <+: c.1) => prefixBetween first second left right
  have members : ∀ p, p ∈ run ↔ d.at? p.1 = some (.expr p.2) ∧ path <+: p.1 := by
    intro p
    rw [← listed.same p.1 p.2]
    constructor
    · intro member
      exact ⟨by simp [member], inside p member⟩
    · rintro ⟨member, within⟩
      by_contra absent
      exact outside p (by simpa [absent] using member) within
  have sorted : run.Pairwise fun a b => Before a.1 b.1 := by
    have whole : run.Sublist (before ++ run ++ behind) :=
      (List.sublist_append_right before run).trans (List.sublist_append_left _ behind)
    exact listed.sorted.sublist whole
  have same : run = (path, e) :: under.map fun q => (path ++ q.1, q.2) :=
    sortedUnique sorted (belowSorted path e listedUnder) fun p => by rw [members, belowIff look listedUnder]
  subst same
  refine ⟨before, under.map fun q => (path ++ q.1, q.2), behind, by simp, ?_, ?_, outside⟩
  · rw [← inner, List.map_map]
    rfl
  · exact fun p member => inside p (List.mem_cons_of_mem _ member)

/- The expressions of a body with their positions, in the order in which a traversal meets them. All that
stands at or below a position, be it of a statement, comes before all at or below a later one. -/
structure Preordered (d : Definition) (found : List (List Nat × Expr)) : Prop where
  met : found.map Prod.snd = d.expressions
  every : ∀ path e, (path, e) ∈ found ↔ d.at? path = some (.expr e)
  once : (found.map Prod.fst).Nodup
  sorted : found.Pairwise fun a b => Before a.1 b.1
  contiguous : ∀ path e, d.at? path = some (.expr e) →
    ∃ before below behind, Contiguous found path e before below behind
  stepwise : ∀ path other, Before path other → ¬ path <+: other →
    ∀ a ∈ found, ∀ b ∈ found, path <+: a.1 → other <+: b.1 → [a, b].Sublist found

theorem listedPreordered (listed : Listed d.at? found) (met : found.map Prod.snd = d.expressions) :
    Preordered d found := by
  refine ⟨met, listed.same, ?_, listed.sorted, fun path e => expressionContiguous listed, ?_⟩
  · refine List.pairwise_map.mpr (listed.sorted.imp fun less same => ?_)
    rw [same] at less
    exact beforeIrrefl _ less
  · intro path other less apart a left b right within beside
    exact pairInOrder listed.sorted beforeAsymm left right (beforeBelow less apart within beside)

theorem expressionsVisited (d : Definition) :
    (∀ {σ : Type u} (callback : σ → Expr → σ) (s : σ),
      d.forEachExpression callback s = d.expressions.foldl callback s) ∧
    ∃ found, Preordered d found := by
  obtain ⟨found, listed, met⟩ := expressionsInOrder d
  exact ⟨fun callback => forEachExpressionFolds callback d, found, listedPreordered listed met⟩

end CompilationUnit
