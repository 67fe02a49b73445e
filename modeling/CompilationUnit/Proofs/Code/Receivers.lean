import CompilationUnit.Proofs.Code.Spelling

/-! The beginning of printed operands. A chain of method calls begins with the text of its innermost
receiver, and no parentheses keep a negative literal there together with its sign. -/
namespace CompilationUnit
namespace Expr

def innermost : Expr → Expr
  | .method receiver _ _ _ => receiver.innermost
  | e => e

def withInnermost : Expr → Expr → Expr
  | .method receiver name args modifying, inner =>
    .method (receiver.withInnermost inner) name args modifying
  | _, inner => inner

def isNegative : Expr → Bool
  | .int value => value.toInt < 0
  | _ => false

theorem digitsFirst (n : Nat) : ∃ c cs, Nat.toDigits 10 n = c :: cs ∧ c.isDigit = true := by
  cases digits : Nat.toDigits 10 n with
  | nil => exact absurd digits Nat.toDigits_ne_nil
  | cons c cs => exact ⟨c, cs, rfl, Json.allDigits (n := n) (by simp [digits])⟩

structure Begins (e : Expr) (c : Char) : Prop where
  complement : c ≠ '~'
  sign : c = '-' → e.innermost.isNegative = true
  digit : c.isDigit = true → ∃ value, e.innermost = .int value ∧ 0 ≤ value.toInt

theorem beginsWith {e : Expr} {c : Char} (complement : c ≠ '~') (sign : c ≠ '-')
    (digit : c.isDigit = false) : e.Begins c :=
  ⟨complement, fun same => absurd same sign, fun same => by simp [digit] at same⟩

theorem beginsWord {e : Expr} {name : String} (word : isWord name = true) (rest : List Char) :
    ∃ c cs, name.toList ++ rest = c :: cs ∧ e.Begins c := by
  obtain ⟨c, cs, same, digit, letters⟩ := wordSource word
  have letter : wordChar c = true := letters c (by simp [same])
  exact ⟨c, cs ++ rest, by simp [same], beginsWith (wordOther letter rfl) (wordOther letter rfl) digit⟩

theorem intBegins (value : Int64) : ∃ c cs, (int value).chars = c :: cs ∧ (int value).Begins c := by
  rw [charsInt]
  by_cases negative : value.toInt < 0
  · exact ⟨'-', Nat.toDigits 10 value.toInt.natAbs, by simp [negative],
      ⟨by decide, fun _ => by simpa [innermost, isNegative] using negative, nofun⟩⟩
  · obtain ⟨c, cs, digits, digit⟩ := digitsFirst value.toInt.natAbs
    have letter := digitWord digit
    refine ⟨c, cs, by simp [negative, digits],
      ⟨wordOther letter rfl, fun same => absurd same (wordOther letter rfl), fun _ => ?_⟩⟩
    exact ⟨value, rfl, by omega⟩

theorem operandBegins : (e : Expr) → e.Every wellSpelled → ∃ c cs, e.operandChars = c :: cs ∧ e.Begins c
  | .method receiver name args modifying, every => by
    obtain ⟨_, receiverEvery, _⟩ := everyMethod.mp every
    obtain ⟨c, cs, same, begins⟩ := receiver.operandBegins receiverEvery
    exact ⟨c, _, by rw [operandOfOther rfl, charsMethod, same, List.cons_append],
      begins.complement, begins.sign, begins.digit⟩
  | .id name, every => by
    obtain ⟨c, cs, same, begins⟩ := beginsWord (e := id name) (everySelf every) []
    exact ⟨c, cs, by rwa [List.append_nil] at same, begins⟩
  | .int value, _ => intBegins value
  | .bool value, _ => by
    cases value <;> exact ⟨_, _, rfl, beginsWith (by decide) (by decide) (by decide)⟩
  | .str value, _ => ⟨'"', _, charsStr value, beginsWith (by decide) (by decide) (by decide)⟩
  | .nil, _ => ⟨_, _, rfl, beginsWith (by decide) (by decide) (by decide)⟩
  | .hole, _ => ⟨_, _, rfl, beginsWith (by decide) (by decide) (by decide)⟩
  | .call callee args, every => by
    obtain ⟨_, calleeEvery, _⟩ := everyCall.mp every
    rw [operandOfOther rfl]
    cases named : callee.isName with
    | true =>
      cases callee with
      | id name =>
        rw [charsCall]
        exact beginsWord (everySelf calleeEvery) _
      | _ => contradiction
    | false =>
      exact ⟨'(', _, charsComputed named args, beginsWith (by decide) (by decide) (by decide)⟩
  | .binary _ _ _, _ | .unary _ _, _ | .ternary _ _ _, _ =>
    ⟨'(', _, operandOfOperation rfl, beginsWith (by decide) (by decide) (by decide)⟩
  | .tensor items, _ => ⟨'(', _, charsTensor items, beginsWith (by decide) (by decide) (by decide)⟩
  | .tuple items, _ => ⟨'[', _, charsTuple items, beginsWith (by decide) (by decide) (by decide)⟩

theorem negatedInt {value : Int64} (smallest : value ≠ Int64.minValue) :
    (-value).toInt = -value.toInt := by
  have low := value.le_toInt
  have high := value.toInt_lt
  have different : value.toInt ≠ -2 ^ 63 := fun same =>
    smallest (Int64.toInt_inj.mp (same.trans Int64.toInt_minValue.symm))
  rw [Int64.toInt_neg]
  exact Int.bmod_eq_of_le (by omega) (by omega)

theorem digitsInjective {m n : Nat} (same : Nat.toDigits 10 m = Nat.toDigits 10 n) : m = n := by
  rw [← Json.digitsValue m, ← Json.digitsValue n, same]

theorem digitsSplit {m n : Nat} {rest rest' : List Char} (ends : rest.head?.all (!·.isDigit) = true)
    (ends' : rest'.head?.all (!·.isDigit) = true)
    (same : Nat.toDigits 10 m ++ rest = Nat.toDigits 10 n ++ rest') : m = n := by
  have taken {k : Nat} {tail : List Char} (stops : tail.head?.all (!·.isDigit) = true) :
      (Nat.toDigits 10 k ++ tail).takeWhile Char.isDigit = Nat.toDigits 10 k := by
    rw [List.takeWhile_append_of_pos fun c member => Json.allDigits member]
    cases tail <;> simp_all
  apply digitsInjective
  rw [← taken ends, same, taken ends']

theorem withInnermostSelf : (e : Expr) → e.withInnermost e.innermost = e
  | .method receiver name args modifying => by
    simp [innermost, withInnermost, receiver.withInnermostSelf]
  | .id _ | .int _ | .bool _ | .str _ | .nil | .hole | .call _ _ | .binary _ _ _ | .unary _ _
  | .ternary _ _ _ | .tensor _ | .tuple _ => rfl

theorem withInnermostSpelled {inner : Expr} (innerEvery : inner.Every wellSpelled) : (e : Expr) →
    e.Every wellSpelled → (e.withInnermost inner).Every wellSpelled
  | .method receiver name args modifying, every => by
    obtain ⟨word, receiverEvery, argsEvery⟩ := everyMethod.mp every
    exact everyMethod.mpr ⟨word, withInnermostSpelled innerEvery receiver receiverEvery, argsEvery⟩
  | .id _, _ | .int _, _ | .bool _, _ | .str _, _ | .nil, _ | .hole, _ | .call _ _, _
  | .binary _ _ _, _ | .unary _ _, _ | .ternary _ _ _, _ | .tensor _, _ | .tuple _, _ => innerEvery

theorem literalFollowed {value : Int64} : (e : Expr) → e.innermost = .int value →
    ∃ rest : List Char, rest.head?.all (!·.isDigit) = true ∧
      ∀ other, (e.withInnermost (.int other)).operandChars = (int other).chars ++ rest
  | .method receiver name args modifying, literal => by
    obtain ⟨rest, ends, followed⟩ := receiver.literalFollowed literal
    refine ⟨rest ++ accessChar modifying :: (name.toList ++ '(' :: (itemsChars args ++ ')' :: [])), ?_,
      fun other => ?_⟩
    · cases rest with
      | nil => cases modifying <;> rfl
      | cons c rest => exact ends
    · rw [withInnermost, operandOfOther rfl, charsMethod, followed, List.append_assoc]
  | .int other, _ => ⟨[], rfl, fun other => (List.append_nil _).symm⟩

theorem literalText {e : Expr} {value : Int64} (literal : e.innermost = .int value) :
    ∃ rest : List Char, rest.head?.all (!·.isDigit) = true ∧
      e.operandChars = (int value).chars ++ rest ∧
      ∀ other, (e.withInnermost (.int other)).operandChars = (int other).chars ++ rest := by
  obtain ⟨rest, ends, followed⟩ := e.literalFollowed literal
  have itself := followed value
  rw [← literal, withInnermostSelf] at itself
  exact ⟨rest, ends, itself.trans (by rw [literal]), followed⟩

theorem negativeChars {value : Int64} (negative : value.toInt < 0) :
    (int value).chars = '-' :: Nat.toDigits 10 value.toInt.natAbs := by
  rw [charsInt, if_pos negative, List.singleton_append]

theorem naturalChars {value : Int64} (natural : 0 ≤ value.toInt) :
    (int value).chars = Nat.toDigits 10 value.toInt.natAbs := by
  rw [charsInt, if_neg (by omega), List.nil_append]

theorem negativeLiteral {e : Expr} (negative : e.isNegative = true) :
    ∃ value, e = .int value ∧ value.toInt < 0 := by
  cases e with
  | int value => exact ⟨value, rfl, by simpa [isNegative] using negative⟩
  | _ => contradiction

theorem signOfChars {e operand : Expr} {op : UnaryOp} (spelled : e.Every wellSpelled)
    (same : e.operandChars = op.char :: operand.operandChars) :
    op = .neg ∧ ∃ value, e.innermost = .int value ∧ value.toInt < 0 := by
  obtain ⟨c, cs, first, begins⟩ := e.operandBegins spelled
  obtain ⟨rfl, _⟩ := List.cons.inj (first.symm.trans same)
  cases op with
  | neg => exact ⟨rfl, negativeLiteral (begins.sign rfl)⟩
  | bitNot => exact absurd rfl begins.complement

theorem signedSmallest {e operand : Expr} {value : Int64} (literal : e.innermost = .int value)
    (negative : value.toInt < 0) (spelled : operand.Every wellSpelled)
    (same : e.operandChars = '-' :: operand.operandChars) : value ≠ Int64.minValue := by
  obtain ⟨rest, ends, itself, _⟩ := literalText literal
  rw [negativeChars negative, List.cons_append, same] at itself
  have digits : operand.operandChars = Nat.toDigits 10 value.toInt.natAbs ++ rest :=
    (List.cons.inj itself).2
  obtain ⟨c, cs, first, begins⟩ := operand.operandBegins spelled
  obtain ⟨d, ds, leading, digit⟩ := digitsFirst value.toInt.natAbs
  rw [leading, List.cons_append] at digits
  obtain ⟨rfl, _⟩ := List.cons.inj (first.symm.trans digits)
  obtain ⟨other, otherLiteral, natural⟩ := begins.digit digit
  obtain ⟨rest', ends', text, _⟩ := literalText otherLiteral
  rw [digits, ← List.cons_append, ← leading, naturalChars natural] at text
  -- Both literals have the same digits, and the positive one is bounded by the largest.
  have magnitude := digitsSplit ends ends' text
  have bound := other.toInt_lt
  rintro rfl
  have smallest := Int64.toInt_minValue
  omega

theorem signedChain {e : Expr} {value : Int64} (literal : e.innermost = .int value)
    (negative : value.toInt < 0) (smallest : value ≠ Int64.minValue) :
    e.operandChars = '-' :: (e.withInnermost (.int (-value))).operandChars := by
  obtain ⟨rest, _, itself, followed⟩ := literalText literal
  have negated := negatedInt smallest
  rw [itself, followed, negativeChars negative, naturalChars (by omega), negated, Int.natAbs_neg,
    List.cons_append]

theorem textIff {e f : Expr} : e.text = f.text ↔ e.chars = f.chars := String.toList_inj.symm

/-- A method call is printed as an operator applied to an expression exactly if the chain of receivers
begins with a negative literal whose positive counterpart is a literal too. -/
theorem methodReadsAsUnary {receiver : Expr} {name : String} {args : List Expr} {modifying : Bool}
    (spelled : (method receiver name args modifying).Every wellSpelled) :
    (∃ op operand, operand.Every wellSpelled ∧
      (method receiver name args modifying).text = (unary op operand).text) ↔
    ∃ value, receiver.innermost = .int value ∧ value.toInt < 0 ∧ value ≠ Int64.minValue := by
  simp only [textIff, charsUnary]
  refine ⟨?_, ?_⟩
  · rintro ⟨op, operand, operandSpelled, same⟩
    obtain ⟨rfl, value, literal, negative⟩ := signOfChars spelled same
    exact ⟨value, literal, negative, signedSmallest literal negative operandSpelled same⟩
  · rintro ⟨value, literal, negative, smallest⟩
    refine ⟨.neg, (method receiver name args modifying).withInnermost (.int (-value)), ?_,
      signedChain (e := method receiver name args modifying) literal negative smallest⟩
    exact withInnermostSpelled (by simp [Every, all, wellSpelled]) _ spelled

theorem negativeReceiverReadsAsUnary :
    (method (.int (-5)) "f" [] false).Every wellSpelled ∧ ∃ op operand, operand.Every wellSpelled ∧
      (method (.int (-5)) "f" [] false).text = (unary op operand).text :=
  ⟨by decide, (methodReadsAsUnary (by decide)).mpr ⟨-5, rfl, by decide, by decide⟩⟩

theorem methodSuffixMisread : ¬ ∀ (receiver operand : Expr) (name : String) (args : List Expr)
    (modifying : Bool) (op : UnaryOp), (method receiver name args modifying).Every wellSpelled →
      operand.Every wellSpelled →
      (method receiver name args modifying).text ≠ (unary op operand).text := by
  intro differ
  exact differ (.int (-5)) (.method (.int 5) "f" [] false) "f" [] false .neg (by decide) (by decide)
    (by decide)

end Expr
end CompilationUnit
