import CompilationUnit.Code.Traversal

/-! Occurrences of expressions in code, said by the forms of code alone, and the traversal of a body:
it meets an expression exactly if the expression stands somewhere in the body. -/
namespace CompilationUnit

inductive Expr.Within (e : Expr) : Expr → Prop where
  | here : Within e e
  | callee {callee args} (inside : Within e callee) : Within e (.call callee args)
  | argument {callee args a} (member : a ∈ args) (inside : Within e a) :
      Within e (.call callee args)
  | receiver {receiver name args modifying} (inside : Within e receiver) :
      Within e (.method receiver name args modifying)
  | methodArgument {receiver name args modifying a} (member : a ∈ args) (inside : Within e a) :
      Within e (.method receiver name args modifying)
  | left {op left right} (inside : Within e left) : Within e (.binary op left right)
  | right {op left right} (inside : Within e right) : Within e (.binary op left right)
  | operand {op operand} (inside : Within e operand) : Within e (.unary op operand)
  | cond {cond onTrue onFalse} (inside : Within e cond) : Within e (.ternary cond onTrue onFalse)
  | onTrue {cond onTrue onFalse} (inside : Within e onTrue) : Within e (.ternary cond onTrue onFalse)
  | onFalse {cond onTrue onFalse} (inside : Within e onFalse) : Within e (.ternary cond onTrue onFalse)
  | tensorItem {items a} (member : a ∈ items) (inside : Within e a) : Within e (.tensor items)
  | tupleItem {items a} (member : a ∈ items) (inside : Within e a) : Within e (.tuple items)

inductive Stmt.Holds (e : Expr) : Stmt → Prop where
  | block {body s} (member : s ∈ body) (inside : Holds e s) : Holds e (.block body)
  | declareTarget {type target value} (inside : e.Within target) : Holds e (.declare type target value)
  | declareValue {type target value} (inside : e.Within value) :
      Holds e (.declare type target (some value))
  | assignTarget {target op value} (inside : e.Within target) : Holds e (.assign target op value)
  | assignValue {target op value} (inside : e.Within value) : Holds e (.assign target op value)
  | expr {value} (inside : e.Within value) : Holds e (.expr value)
  | ret {value} (inside : e.Within value) : Holds e (.ret value)
  | branchCond {cond negated onTrue onFalse} (inside : e.Within cond) :
      Holds e (.branch cond negated onTrue onFalse)
  | branchTrue {cond negated onTrue onFalse s} (member : s ∈ onTrue) (inside : Holds e s) :
      Holds e (.branch cond negated onTrue onFalse)
  | branchFalse {cond negated onTrue onFalse s} (member : s ∈ onFalse) (inside : Holds e s) :
      Holds e (.branch cond negated onTrue (some onFalse))
  | repeatCount {count body} (inside : e.Within count) : Holds e (.repeatTimes count body)
  | repeatBody {count body s} (member : s ∈ body) (inside : Holds e s) :
      Holds e (.repeatTimes count body)
  | whileCond {cond body} (inside : e.Within cond) : Holds e (.whileTrue cond body)
  | whileBody {cond body s} (member : s ∈ body) (inside : Holds e s) : Holds e (.whileTrue cond body)
  | untilBody {body cond s} (member : s ∈ body) (inside : Holds e s) : Holds e (.doUntil body cond)
  | untilCond {body cond} (inside : e.Within cond) : Holds e (.doUntil body cond)
  | tryBody {body caught handler s} (member : s ∈ body) (inside : Holds e s) :
      Holds e (.tryCatch body caught handler)
  | tryHandler {body caught handler s} (member : s ∈ handler) (inside : Holds e s) :
      Holds e (.tryCatch body caught handler)

def Definition.Holds (d : Definition) (e : Expr) : Prop := ∃ s ∈ d.body, s.Holds e

def Definition.Calls (d : Definition) (name : String) : Prop :=
  ∃ args, d.Holds (.call (.id name) args)

theorem allOfIff {e : Expr} {es : List Expr} : e ∈ allOf es ↔ ∃ a ∈ es, e ∈ a.all := by
  induction es with
  | nil => simp [allOf]
  | cons a es ih => simp [allOf, ih]

mutual

theorem withinOfAll {e : Expr} : (outer : Expr) → e ∈ outer.all → e.Within outer
  | .id _, h | .int _, h | .bool _, h | .str _, h | .nil, h | .hole, h => by
    rw [Expr.all, List.mem_singleton] at h
    rw [h]
    exact .here
  | .call callee args, h => by
    rw [Expr.all, List.mem_cons, List.mem_append] at h
    rcases h with rfl | inside | inside
    · exact .here
    · exact .callee (withinOfAll callee inside)
    · obtain ⟨a, member, within⟩ := withinOfAllOf args inside
      exact .argument member within
  | .method receiver _ args _, h => by
    rw [Expr.all, List.mem_cons, List.mem_append] at h
    rcases h with rfl | inside | inside
    · exact .here
    · exact .receiver (withinOfAll receiver inside)
    · obtain ⟨a, member, within⟩ := withinOfAllOf args inside
      exact .methodArgument member within
  | .binary _ left right, h => by
    rw [Expr.all, List.mem_cons, List.mem_append] at h
    rcases h with rfl | inside | inside
    · exact .here
    · exact .left (withinOfAll left inside)
    · exact .right (withinOfAll right inside)
  | .unary _ operand, h => by
    rw [Expr.all, List.mem_cons] at h
    rcases h with rfl | inside
    · exact .here
    · exact .operand (withinOfAll operand inside)
  | .ternary cond onTrue onFalse, h => by
    rw [Expr.all, List.mem_cons, List.mem_append, List.mem_append] at h
    rcases h with rfl | (inside | inside) | inside
    · exact .here
    · exact .cond (withinOfAll cond inside)
    · exact .onTrue (withinOfAll onTrue inside)
    · exact .onFalse (withinOfAll onFalse inside)
  | .tensor items, h => by
    rw [Expr.all, List.mem_cons] at h
    rcases h with rfl | inside
    · exact .here
    · obtain ⟨a, member, within⟩ := withinOfAllOf items inside
      exact .tensorItem member within
  | .tuple items, h => by
    rw [Expr.all, List.mem_cons] at h
    rcases h with rfl | inside
    · exact .here
    · obtain ⟨a, member, within⟩ := withinOfAllOf items inside
      exact .tupleItem member within

theorem withinOfAllOf {e : Expr} : (es : List Expr) → e ∈ allOf es → ∃ a ∈ es, e.Within a
  | [], h => by simp [allOf] at h
  | a :: es, h => by
    rw [allOf, List.mem_append] at h
    rcases h with inside | later
    · exact ⟨a, List.mem_cons_self, withinOfAll a inside⟩
    · obtain ⟨b, member, within⟩ := withinOfAllOf es later
      exact ⟨b, List.mem_cons_of_mem a member, within⟩

end

theorem allSelf (e : Expr) : e ∈ e.all := by cases e <;> simp [Expr.all]

theorem allIff {e outer : Expr} : e ∈ outer.all ↔ e.Within outer := by
  refine ⟨?_, ?_⟩
  · exact withinOfAll outer
  · intro within
    induction within with
    | here => exact allSelf e
    | callee _ ih | receiver _ ih | left _ ih | right _ ih | operand _ ih | cond _ ih | onTrue _ ih
      | onFalse _ ih => simp [Expr.all, ih]
    | argument member _ ih | methodArgument member _ ih | tensorItem member _ ih
      | tupleItem member _ ih =>
      have inside := allOfIff.mpr ⟨_, member, ih⟩
      simp [Expr.all, inside]

theorem visitsOfIff {v : Visit} {ss : List Stmt} : v ∈ visitsOf ss ↔ ∃ s ∈ ss, v ∈ s.visits := by
  induction ss with
  | nil => simp [visitsOf]
  | cons s ss ih => simp [visitsOf, ih]

theorem innerVisit {o : Expr} {s : Stmt} {inner : List Visit}
    (h : .expr o ∈ .enter s :: (inner ++ [.leave s])) : .expr o ∈ inner := by
  simpa using h

mutual

theorem holdsOfVisit {e o : Expr} (within : e.Within o) : (s : Stmt) → .expr o ∈ s.visits → s.Holds e
  | .block body, h => by
    obtain ⟨s, member, holds⟩ := holdsOfVisits within body (innerVisit h)
    exact .block member holds
  | .declare _ target none, h => by
    have inside : .expr o ∈ [Visit.expr target] := innerVisit h
    cases List.mem_singleton.mp inside
    exact .declareTarget within
  | .declare _ target (some value), h => by
    have inside : .expr o ∈ [Visit.expr target, .expr value] := innerVisit h
    rcases List.mem_cons.mp inside with first | last
    · cases first
      exact .declareTarget within
    · cases List.mem_singleton.mp last
      exact .declareValue within
  | .assign target _ value, h => by
    have inside : .expr o ∈ [Visit.expr target, .expr value] := innerVisit h
    rcases List.mem_cons.mp inside with first | last
    · cases first
      exact .assignTarget within
    · cases List.mem_singleton.mp last
      exact .assignValue within
  | .expr value, h => by
    have inside : .expr o ∈ [Visit.expr value] := innerVisit h
    cases List.mem_singleton.mp inside
    exact .expr within
  | .ret value, h => by
    have inside : .expr o ∈ [Visit.expr value] := innerVisit h
    cases List.mem_singleton.mp inside
    exact .ret within
  | .branch cond _ onTrue none, h => by
    have inside : .expr o ∈ .expr cond :: visitsOf onTrue := innerVisit h
    rcases List.mem_cons.mp inside with first | later
    · cases first
      exact .branchCond within
    · obtain ⟨s, member, holds⟩ := holdsOfVisits within onTrue later
      exact .branchTrue member holds
  | .branch cond _ onTrue (some onFalse), h => by
    have inside : .expr o ∈ .expr cond :: (visitsOf onTrue ++ visitsOf onFalse) := innerVisit h
    rcases List.mem_cons.mp inside with first | later
    · cases first
      exact .branchCond within
    rcases List.mem_append.mp later with later | last
    · obtain ⟨s, member, holds⟩ := holdsOfVisits within onTrue later
      exact .branchTrue member holds
    · obtain ⟨s, member, holds⟩ := holdsOfVisits within onFalse last
      exact .branchFalse member holds
  | .repeatTimes count body, h => by
    have inside : .expr o ∈ .expr count :: visitsOf body := innerVisit h
    rcases List.mem_cons.mp inside with first | later
    · cases first
      exact .repeatCount within
    · obtain ⟨s, member, holds⟩ := holdsOfVisits within body later
      exact .repeatBody member holds
  | .whileTrue cond body, h => by
    have inside : .expr o ∈ .expr cond :: visitsOf body := innerVisit h
    rcases List.mem_cons.mp inside with first | later
    · cases first
      exact .whileCond within
    · obtain ⟨s, member, holds⟩ := holdsOfVisits within body later
      exact .whileBody member holds
  | .doUntil body cond, h => by
    have inside : .expr o ∈ visitsOf body ++ [.expr cond] := innerVisit h
    rcases List.mem_append.mp inside with later | last
    · obtain ⟨s, member, holds⟩ := holdsOfVisits within body later
      exact .untilBody member holds
    · cases List.mem_singleton.mp last
      exact .untilCond within
  | .tryCatch body _ handler, h => by
    have inside : .expr o ∈ visitsOf body ++ visitsOf handler := innerVisit h
    rcases List.mem_append.mp inside with later | last
    · obtain ⟨s, member, holds⟩ := holdsOfVisits within body later
      exact .tryBody member holds
    · obtain ⟨s, member, holds⟩ := holdsOfVisits within handler last
      exact .tryHandler member holds

theorem holdsOfVisits {e o : Expr} (within : e.Within o) :
    (ss : List Stmt) → .expr o ∈ visitsOf ss → ∃ s ∈ ss, s.Holds e
  | [], h => by simp [visitsOf] at h
  | s :: ss, h => by
    rw [visitsOf, List.mem_append] at h
    rcases h with inside | later
    · exact ⟨s, List.mem_cons_self, holdsOfVisit within s inside⟩
    · obtain ⟨t, member, holds⟩ := holdsOfVisits within ss later
      exact ⟨t, List.mem_cons_of_mem s member, holds⟩

end

theorem visitOfHolds {e : Expr} {s : Stmt} (holds : s.Holds e) :
    ∃ o, .expr o ∈ s.visits ∧ e.Within o := by
  induction holds with
  | @declareTarget type target value inside =>
    exact ⟨target, by cases value <;> simp [Stmt.visits], inside⟩
  | @branchCond cond negated onTrue onFalse inside =>
    exact ⟨cond, by cases onFalse <;> simp [Stmt.visits], inside⟩
  | declareValue inside | assignTarget inside | assignValue inside | expr inside | ret inside
    | repeatCount inside | whileCond inside | untilCond inside =>
    exact ⟨_, by simp [Stmt.visits], inside⟩
  | @branchTrue cond negated onTrue onFalse s member _ ih =>
    obtain ⟨o, visited, within⟩ := ih
    have inside := visitsOfIff.mpr ⟨s, member, visited⟩
    exact ⟨o, by cases onFalse <;> simp [Stmt.visits, inside], within⟩
  | block member _ ih | branchFalse member _ ih | repeatBody member _ ih | whileBody member _ ih
    | untilBody member _ ih | tryBody member _ ih | tryHandler member _ ih =>
    obtain ⟨o, visited, within⟩ := ih
    have inside := visitsOfIff.mpr ⟨_, member, visited⟩
    exact ⟨o, by simp [Stmt.visits, inside], within⟩

theorem expressionsIff {d : Definition} {e : Expr} : e ∈ d.expressions ↔ d.Holds e := by
  have met : e ∈ d.expressions ↔ ∃ o, .expr o ∈ visitsOf d.body ∧ e.Within o := by
    simp only [Definition.expressions, Definition.outermost, Definition.visits, allOfIff, allIff,
      List.mem_filterMap]
    refine ⟨?_, ?_⟩
    · intro shown
      obtain ⟨o, ⟨v, visited, same⟩, within⟩ := shown
      cases v with
      | expr top =>
        cases same
        exact ⟨_, visited, within⟩
      | enter s => contradiction
      | leave s => contradiction
    · intro shown
      obtain ⟨o, visited, within⟩ := shown
      exact ⟨o, ⟨_, visited, rfl⟩, within⟩
  rw [met]
  refine ⟨?_, ?_⟩
  · intro shown
    obtain ⟨o, visited, within⟩ := shown
    exact holdsOfVisits within d.body visited
  · intro held
    obtain ⟨s, member, holds⟩ := held
    obtain ⟨o, visited, within⟩ := visitOfHolds holds
    exact ⟨o, visitsOfIff.mpr ⟨s, member, visited⟩, within⟩

theorem directCalleeIff {e : Expr} {name : String} :
    e.directCallee? = some name ↔ ∃ args, e = .call (.id name) args := by
  refine ⟨?_, ?_⟩
  · intro h
    unfold Expr.directCallee? at h
    split at h
    · cases h
      exact ⟨_, rfl⟩
    · contradiction
  · intro call
    obtain ⟨args, rfl⟩ := call
    rfl

theorem insertAllIff {s : NameSet} {names : List String} {name : String} :
    name ∈ (s.insertAll names).names ↔ name ∈ s.names ∨ name ∈ names := by
  rw [NameSet.insertAllNames, List.mem_append, List.mem_eraseDups, List.mem_filter, decide_eq_true_iff]
  by_cases known : name ∈ s.names <;> simp [known]

theorem directCalleesIff {d : Definition} {name : String} :
    name ∈ d.directCallees.names ↔ d.Calls name := by
  have empty : NameSet.empty.names = [] := rfl
  simp only [Definition.directCallees, NameSet.ofList, insertAllIff, empty, List.not_mem_nil,
    false_or, List.mem_filterMap, directCalleeIff, expressionsIff]
  refine ⟨?_, ?_⟩
  · intro found
    obtain ⟨e, holds, args, rfl⟩ := found
    exact ⟨args, holds⟩
  · intro calls
    obtain ⟨args, holds⟩ := calls
    exact ⟨_, holds, args, rfl⟩

end CompilationUnit
