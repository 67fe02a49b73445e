import CompilationUnit.Proofs.Code.Receivers

/-! Shapes of printed expressions. Where the spaces and dots that stand outside are, and the first
character, tell the shape of a well-formed expression from its text. -/
namespace CompilationUnit
namespace Expr

/- No name is printed as a literal, no tensor as a mere group, and no sign stands before a chain of
calls that it does not belong to. -/
def unmistakable : Expr → Bool
  | .id name => !(["true", "false", "null", "_"].contains name)
  | .method receiver _ _ _ => !receiver.isNegative
  | .tensor items => items.length != 1
  | _ => true

def wellFormed (e : Expr) : Bool := e.wellSpelled && e.unmistakable

end Expr

inductive Shape where
  | phrase | signed | chained | quoted | listed | grouped | word | applied
  deriving DecidableEq

def simpleShape (cs : List Char) : Shape :=
  match cs.head? with
  | some '"' => .quoted
  | some '[' => .listed
  | some '(' => .grouped
  | _ => if cs.all wordChar then .word else .applied

def shapeOf (cs : List Char) : Shape :=
  if (' ', true) ∈ outline cs then .phrase
  else if cs.head? = some '-' ∨ cs.head? = some '~' then .signed
  else if ('.', true) ∈ outline cs ∨ ('~', true) ∈ outline cs then .chained
  else simpleShape cs

namespace Expr

def shape : Expr → Shape
  | .id _ => .word
  | .int value => if value.toInt < 0 then .signed else .word
  | .bool _ => .word
  | .str _ => .quoted
  | .nil => .applied
  | .hole => .word
  | .call callee _ => if callee.isName then .applied else .grouped
  | .method _ _ _ _ => .chained
  | .binary _ _ _ => .phrase
  | .unary _ _ => .signed
  | .ternary _ _ _ => .phrase
  | .tensor _ => .grouped
  | .tuple _ => .listed

def literalWords : List Expr := [bool true, bool false, hole]

end Expr

def Shape.Covers : Shape → Expr → Prop
  | .phrase, e => (∃ op left right, e = .binary op left right) ∨
    ∃ cond onTrue onFalse, e = .ternary cond onTrue onFalse
  | .signed, e => (∃ op operand, e = .unary op operand) ∨ ∃ value, e = .int value ∧ value.toInt < 0
  | .chained, e => ∃ receiver name args modifying, e = .method receiver name args modifying
  | .quoted, e => ∃ value, e = .str value
  | .listed, e => ∃ items, e = .tuple items
  | .grouped, e => (∃ items, e = .tensor items) ∨
    ∃ callee args, callee.isName = false ∧ e = .call callee args
  | .word, e => (∃ name, e = .id name) ∨ (∃ value, e = .int value ∧ 0 ≤ value.toInt) ∨
    e ∈ Expr.literalWords
  | .applied, e => (∃ name args, e = .call (.id name) args) ∨ e = .nil

namespace Expr

variable {e f : Expr}

theorem shapeCovers (e : Expr) : e.shape.Covers e := by
  cases e with
  | id name => exact .inl ⟨name, rfl⟩
  | int value =>
    rw [shape]
    split
    · exact .inr ⟨value, rfl, by assumption⟩
    · exact .inr (.inl ⟨value, rfl, by omega⟩)
  | bool value => cases value <;> exact .inr (.inr (by simp [literalWords]))
  | str value => exact ⟨value, rfl⟩
  | nil => exact .inr rfl
  | hole => exact .inr (.inr (by simp [literalWords]))
  | call callee args =>
    cases callee with
    | id name => exact .inl ⟨name, args, rfl⟩
    | _ => exact .inr ⟨_, args, rfl, rfl⟩
  | method receiver name args modifying => exact ⟨receiver, name, args, modifying, rfl⟩
  | binary op left right => exact .inl ⟨op, left, right, rfl⟩
  | unary op operand => exact .inl ⟨op, operand, rfl⟩
  | ternary cond onTrue onFalse => exact .inr ⟨cond, onTrue, onFalse, rfl⟩
  | tensor items => exact .inl ⟨items, rfl⟩
  | tuple items => exact ⟨items, rfl⟩

theorem covered {shape : Shape} (same : e.shape = shape) : shape.Covers e := same ▸ shapeCovers e

theorem everyMono {p q : Expr → Bool} (weaker : ∀ inner, p inner = true → q inner = true) (every : e.Every p) :
    e.Every q := fun inner member => weaker inner (every inner member)

theorem formedSpelled (formed : e.Every wellFormed) : e.Every wellSpelled :=
  everyMono (fun _ both => (Bool.and_eq_true_iff.mp both).1) formed

theorem formedUnmistakable (formed : e.Every wellFormed) : e.unmistakable = true :=
  (Bool.and_eq_true_iff.mp (everySelf formed)).2

theorem chainUnsigned {name : String} {args : List Expr} {modifying : Bool} : (receiver : Expr) →
    (method receiver name args modifying).Every wellFormed → receiver.innermost.isNegative = false
  | .method receiver _ _ _, formed =>
    receiver.chainUnsigned (everyMethod.mp formed).2.1
  | .int value, formed => by simpa [unmistakable, innermost] using formedUnmistakable formed
  | .id _, _ | .bool _, _ | .str _, _ | .nil, _ | .hole, _ | .call _ _, _ | .binary _ _ _, _
  | .unary _ _, _ | .ternary _ _ _, _ | .tensor _, _ | .tuple _, _ => rfl

theorem simpleWord {cs : List Char} (letters : ∀ c ∈ cs, wordChar c = true) : simpleShape cs = .word := by
  unfold simpleShape
  cases cs with
  | nil => rfl
  | cons c cs =>
    have letter := letters c List.mem_cons_self
    have quote := wordOther letter (d := '"') rfl
    have square := wordOther letter (d := '[') rfl
    have bracket := wordOther letter (d := '(') rfl
    have all : (c :: cs).all wordChar = true := List.all_eq_true.mpr letters
    simp [quote, square, bracket, all]

theorem simpleApplied {name : String} (word : isWord name = true) (rest : List Char) :
    simpleShape (name.toList ++ '(' :: rest) = .applied := by
  obtain ⟨c, cs, same, _, letters⟩ := wordSource word
  have letter : wordChar c = true := letters c (by simp [same])
  have quote := wordOther letter (d := '"') rfl
  have square := wordOther letter (d := '[') rfl
  have bracket := wordOther letter (d := '(') rfl
  have notAll : (name.toList ++ '(' :: rest).all wordChar = false := by
    simp [List.all_append, show wordChar '(' = false from rfl]
  unfold simpleShape
  rw [notAll]
  simp [same, quote, square, bracket]

theorem noSpaceOutside (spelled : e.Every wellSpelled) : (' ', true) ∉ outline e.operandChars :=
  fun space => (operandPhrase (operandOutside e spelled ' ' space)).2 rfl

theorem shapeUnspaced {cs : List Char} (unspaced : (' ', true) ∉ outline cs) : shapeOf cs =
    if cs.head? = some '-' ∨ cs.head? = some '~' then .signed
    else if ('.', true) ∈ outline cs ∨ ('~', true) ∈ outline cs then .chained
    else simpleShape cs := if_neg unspaced

theorem unsignedOperand (spelled : e.Every wellSpelled) (unsigned : e.innermost.isNegative = false) :
    ¬ (e.operandChars.head? = some '-' ∨ e.operandChars.head? = some '~') := by
  obtain ⟨c, cs, same, begins⟩ := operandBegins e spelled
  rw [same, List.head?_cons, Option.some.injEq, Option.some.injEq]
  rintro (minus | complement)
  · have negative := begins.sign minus
    rw [unsigned] at negative
    contradiction
  · exact begins.complement complement

theorem simpleShaped (spelled : e.Every wellSpelled) (single : e.isOperation = false)
    (plain : e.isMethodCall = false) (unsigned : e.innermost.isNegative = false) :
    shapeOf e.chars = simpleShape e.chars := by
  have atoms := atomsOutside spelled single plain
  rw [← operandOfOther single] at atoms ⊢
  rw [shapeUnspaced (noSpaceOutside spelled), if_neg (unsignedOperand spelled unsigned), if_neg]
  rintro (dot | complement)
  · exact absurd (atoms '.' dot) (by decide)
  · exact absurd (atoms '~' complement) (by decide)

theorem spacedShape {cs rest : List Char} (balanced : Balanced cs) : shapeOf (cs ++ ' ' :: rest) = .phrase := by
  unfold shapeOf
  rw [if_pos]
  rw [outlineSplit balanced rfl]
  simp

theorem shapeOfChars (formed : e.Every wellFormed) : shapeOf e.chars = e.shape := by
  have spelled := formedSpelled formed
  cases e with
  | id name =>
    rw [simpleShaped spelled rfl rfl rfl]
    exact simpleWord (wordLetters (everySelf spelled))
  | int value =>
    by_cases negative : value.toInt < 0
    · have unspaced := noSpaceOutside spelled
      rw [operandOfOther rfl] at unspaced
      rw [shapeUnspaced unspaced, negativeChars negative, shape]
      simp [negative]
    · rw [simpleShaped spelled rfl rfl (by simpa [innermost, isNegative] using negative),
        naturalChars (by omega), shape, if_neg negative]
      exact simpleWord (digitsWord _)
  | bool value =>
    rw [simpleShaped spelled rfl rfl rfl]
    cases value <;> rfl
  | str value =>
    rw [simpleShaped spelled rfl rfl rfl, charsStr]
    rfl
  | nil => exact simpleShaped spelled rfl rfl rfl
  | hole => exact simpleShaped spelled rfl rfl rfl
  | call callee args =>
    rw [simpleShaped spelled rfl rfl rfl, shape]
    cases named : callee.isName with
    | true =>
      cases callee with
      | id name =>
        rw [charsCall]
        exact simpleApplied (everySelf (everyCall.mp spelled).2.1) _
      | _ => contradiction
    | false =>
      rw [charsComputed named]
      rfl
  | method receiver name args modifying =>
    obtain ⟨_, receiverSpelled, _⟩ := everyMethod.mp spelled
    have access : (accessChar modifying, true) ∈ outline (method receiver name args modifying).chars := by
      rw [charsMethod, outlineSplit (operandBalanced (receiver.charsBalanced receiverSpelled))
        (by cases modifying <;> rfl)]
      simp
    rw [← operandOfOther rfl] at access ⊢
    rw [shapeUnspaced (noSpaceOutside spelled),
      if_neg (unsignedOperand spelled (receiver.chainUnsigned formed)), if_pos]
    · rfl
    · cases modifying with
      | false => exact .inl access
      | true => exact .inr access
  | binary op left right =>
    rw [charsBinary]
    exact spacedShape (operandBalanced (left.charsBalanced (everyBinary.mp spelled).2.1))
  | unary op operand =>
    have unspaced : (' ', true) ∉ outline (unary op operand).chars := by
      rw [charsUnary, outlineOuter (by cases op <;> rfl), List.mem_cons, not_or]
      exact ⟨by cases op <;> decide, noSpaceOutside (everyUnary.mp spelled).2⟩
    rw [shapeUnspaced unspaced, charsUnary, if_pos (by cases op <;> simp [UnaryOp.char])]
    rfl
  | ternary cond onTrue onFalse =>
    rw [charsTernary]
    exact spacedShape (operandBalanced (cond.charsBalanced (everyTernary.mp spelled).2.1))
  | tensor items =>
    rw [simpleShaped spelled rfl rfl rfl, charsTensor]
    rfl
  | tuple items =>
    rw [simpleShaped spelled rfl rfl rfl, charsTuple]
    rfl

end Expr
end CompilationUnit
