import CompilationUnit.Code.Basic

/-!
Equality of code is decidable: a comparison by cases for each type that nests in itself, and the
proof that it holds of equal values only.
-/
namespace CompilationUnit

mutual

def ValueType.same : ValueType → ValueType → Bool
  | .int, .int => true
  | .cell, .cell => true
  | .slice, .slice => true
  | .builder, .builder => true
  | .cont, .cont => true
  | .tuple, .tuple => true
  | .tensor a, .tensor b => sameTypes a b
  | .unit, .unit => true
  | .hole, .hole => true
  | _, _ => false

def sameTypes : List ValueType → List ValueType → Bool
  | [], [] => true
  | a :: as, b :: bs => a.same b && sameTypes as bs
  | _, _ => false

end

mutual

theorem ValueType.sameIff : ∀ a b : ValueType, a.same b = true ↔ a = b
  | .tensor a, b => by
    cases b <;> simp [ValueType.same, sameTypesIff a]
  | .int, b => by cases b <;> simp [ValueType.same]
  | .cell, b => by cases b <;> simp [ValueType.same]
  | .slice, b => by cases b <;> simp [ValueType.same]
  | .builder, b => by cases b <;> simp [ValueType.same]
  | .cont, b => by cases b <;> simp [ValueType.same]
  | .tuple, b => by cases b <;> simp [ValueType.same]
  | .unit, b => by cases b <;> simp [ValueType.same]
  | .hole, b => by cases b <;> simp [ValueType.same]

theorem sameTypesIff : ∀ as bs : List ValueType, sameTypes as bs = true ↔ as = bs
  | [], bs => by cases bs <;> simp [sameTypes]
  | a :: as, bs => by
    cases bs <;> simp [sameTypes, ValueType.sameIff a, sameTypesIff as]

end

instance : DecidableEq ValueType := fun a b => decidable_of_iff _ (ValueType.sameIff a b)

mutual

def Expr.same : Expr → Expr → Bool
  | .id a, .id b => a == b
  | .int a, .int b => a == b
  | .bool a, .bool b => a == b
  | .str a, .str b => a == b
  | .nil, .nil => true
  | .hole, .hole => true
  | .call f as, .call g bs => f.same g && sameExprs as bs
  | .method r m as x, .method s n bs y => r.same s && m == n && sameExprs as bs && x == y
  | .binary o a b, .binary p c d => o == p && a.same c && b.same d
  | .unary o a, .unary p b => o == p && a.same b
  | .ternary a b c, .ternary d e f => a.same d && b.same e && c.same f
  | .tensor as, .tensor bs => sameExprs as bs
  | .tuple as, .tuple bs => sameExprs as bs
  | _, _ => false

def sameExprs : List Expr → List Expr → Bool
  | [], [] => true
  | a :: as, b :: bs => a.same b && sameExprs as bs
  | _, _ => false

end

mutual

theorem Expr.sameIff : ∀ a b : Expr, a.same b = true ↔ a = b
  | .id _, b => by cases b <;> simp [Expr.same]
  | .int _, b => by cases b <;> simp [Expr.same]
  | .bool _, b => by cases b <;> simp [Expr.same]
  | .str _, b => by cases b <;> simp [Expr.same]
  | .nil, b => by cases b <;> simp [Expr.same]
  | .hole, b => by cases b <;> simp [Expr.same]
  | .call f as, b => by cases b <;> simp [Expr.same, Expr.sameIff f, sameExprsIff as]
  | .method r _ as _, b => by
    cases b <;> simp [Expr.same, Expr.sameIff r, sameExprsIff as, and_assoc]
  | .binary _ l r, b => by
    cases b <;> simp [Expr.same, Expr.sameIff l, Expr.sameIff r, and_assoc]
  | .unary _ e, b => by cases b <;> simp [Expr.same, Expr.sameIff e]
  | .ternary c t f, b => by
    cases b <;> simp [Expr.same, Expr.sameIff c, Expr.sameIff t, Expr.sameIff f, and_assoc]
  | .tensor as, b => by cases b <;> simp [Expr.same, sameExprsIff as]
  | .tuple as, b => by cases b <;> simp [Expr.same, sameExprsIff as]

theorem sameExprsIff : ∀ as bs : List Expr, sameExprs as bs = true ↔ as = bs
  | [], bs => by cases bs <;> simp [sameExprs]
  | a :: as, bs => by cases bs <;> simp [sameExprs, Expr.sameIff a, sameExprsIff as]

end

instance : DecidableEq Expr := fun a b => decidable_of_iff _ (Expr.sameIff a b)

mutual

def Stmt.same : Stmt → Stmt → Bool
  | .block a, .block b => sameStmts a b
  | .declare s a v, .declare t b w => s == t && a == b && v == w
  | .assign a o v, .assign b p w => a == b && o == p && v == w
  | .expr a, .expr b => a == b
  | .ret a, .ret b => a == b
  | .branch c n a e, .branch d m b f => c == d && n == m && sameStmts a b && sameOtherwise e f
  | .repeatTimes c a, .repeatTimes d b => c == d && sameStmts a b
  | .whileTrue c a, .whileTrue d b => c == d && sameStmts a b
  | .doUntil a c, .doUntil b d => sameStmts a b && c == d
  | .tryCatch a x h, .tryCatch b y k => sameStmts a b && x == y && sameStmts h k
  | _, _ => false

def sameStmts : List Stmt → List Stmt → Bool
  | [], [] => true
  | a :: as, b :: bs => a.same b && sameStmts as bs
  | _, _ => false

def sameOtherwise : Option (List Stmt) → Option (List Stmt) → Bool
  | none, none => true
  | some a, some b => sameStmts a b
  | _, _ => false

end

mutual

theorem Stmt.sameIff : ∀ a b : Stmt, a.same b = true ↔ a = b
  | .block a, b => by cases b <;> simp [Stmt.same, sameStmtsIff a]
  | .declare _ _ _, b => by cases b <;> simp [Stmt.same, and_assoc]
  | .assign _ _ _, b => by cases b <;> simp [Stmt.same, and_assoc]
  | .expr _, b => by cases b <;> simp [Stmt.same]
  | .ret _, b => by cases b <;> simp [Stmt.same]
  | .branch _ _ a e, b => by
    cases b <;> simp [Stmt.same, sameStmtsIff a, sameOtherwiseIff e, and_assoc]
  | .repeatTimes _ a, b => by cases b <;> simp [Stmt.same, sameStmtsIff a]
  | .whileTrue _ a, b => by cases b <;> simp [Stmt.same, sameStmtsIff a]
  | .doUntil a _, b => by cases b <;> simp [Stmt.same, sameStmtsIff a]
  | .tryCatch a _ h, b => by
    cases b <;> simp [Stmt.same, sameStmtsIff a, sameStmtsIff h, and_assoc]

theorem sameStmtsIff : ∀ as bs : List Stmt, sameStmts as bs = true ↔ as = bs
  | [], bs => by cases bs <;> simp [sameStmts]
  | a :: as, bs => by cases bs <;> simp [sameStmts, Stmt.sameIff a, sameStmtsIff as]

theorem sameOtherwiseIff : ∀ a b : Option (List Stmt), sameOtherwise a b = true ↔ a = b
  | none, b => by cases b <;> simp [sameOtherwise]
  | some a, b => by cases b <;> simp [sameOtherwise, sameStmtsIff a]

end

instance : DecidableEq Stmt := fun a b => decidable_of_iff _ (Stmt.sameIff a b)

deriving instance DecidableEq for Parameter
deriving instance DecidableEq for Definition
deriving instance DecidableEq for AsmDefinition

end CompilationUnit
