import CompilationUnit.Proofs.Code.Words

/-! The characters of printed code: those of the names and strings in it, and a few that every printer
adds. What holds of all of these holds of the whole text. -/
namespace CompilationUnit

def allChars (kind : Char → Bool) (text : String) : Bool := text.toList.all kind

def attributeChar (c : Char) : Bool := wordChar c || ['(', ')'].contains c

def headChar (c : Char) : Bool := attributeChar c || [' ', ','].contains c

def codeChar (c : Char) : Bool :=
  headChar c || signChar c || ['"', '.', '[', ']', '~'].contains c

variable {kind other : Char → Bool} {text : String}

theorem allCharsIff : allChars kind text = true ↔ ∀ c ∈ text.toList, kind c = true := List.all_eq_true

@[simp]
theorem allCharsAppend (text more : String) :
    allChars kind (text ++ more) = (allChars kind text && allChars kind more) := by
  simp [allChars]

theorem allCharsMono (weaker : ∀ c, kind c = true → other c = true) (all : allChars kind text = true) :
    allChars other text = true :=
  allCharsIff.mpr fun c member => weaker c (allCharsIff.mp all c member)

theorem kindOther {c d : Char} (inside : kind c = true) (outside : kind d = false) : c ≠ d := by
  rintro rfl
  exact Bool.false_ne_true (outside.symm.trans inside)

theorem wordAttribute {c : Char} (word : wordChar c = true) : attributeChar c = true := by
  simp [attributeChar, word]

theorem attributeHead {c : Char} (inside : attributeChar c = true) : headChar c = true := by
  simp [headChar, inside]

theorem headCode {c : Char} (head : headChar c = true) : codeChar c = true := by
  simp [codeChar, head]

mutual

theorem ValueType.textChars : (type : ValueType) → allChars headChar type.text = true
  | .int | .cell | .slice | .builder | .cont | .tuple | .unit | .hole => by decide
  | .tensor items => by
    have fixed : allChars headChar "(" = true ∧ allChars headChar ")" = true := by decide
    simp [ValueType.text, fixed, typesChars "" rfl items]

theorem typesChars (separator : String) (separates : allChars headChar separator = true) :
    (types : List ValueType) → allChars headChar (typesText separator types) = true
  | [] => rfl
  | type :: types => by
    simp [typesText, separates, type.textChars, typesChars ", " rfl types]

end

theorem Attribute.textChars (a : Attribute) : allChars attributeChar a.text = true := by
  cases a with
  | methodId id =>
    cases id with
    | none => decide
    | some id =>
      have fixed : allChars attributeChar "method_id(" = true ∧ allChars attributeChar ")" = true := by
        decide
      have digits : allChars attributeChar id.toNat.repr = true := by
        rw [allCharsIff, Nat.toList_repr]
        exact fun c member => wordAttribute (digitsWord _ c member)
      simp [Attribute.text, fixed, digits]
  | _ => decide

theorem attributesChars (attributes : List Attribute) :
    allChars headChar (String.join (attributes.map fun a => " " ++ a.text)) = true := by
  induction attributes with
  | nil => rfl
  | cons a attributes ih =>
    have fixed : allChars headChar " " = true := by decide
    simp [ih, fixed, allCharsMono (fun c => attributeHead) a.textChars]

theorem commaSeparatedChars (fixed : ∀ c, headChar c = true → kind c = true) {texts : List String}
    (all : ∀ text ∈ texts, allChars kind text = true) : allChars kind (commaSeparated texts) = true := by
  have comma : allChars kind ", " = true := allCharsMono fixed (by decide)
  have later {others : List String} (all : ∀ text ∈ others, allChars kind text = true) :
      allChars kind (String.join (others.map (", " ++ ·))) = true := by
    induction others with
    | nil => rfl
    | cons text others ih =>
      rw [List.forall_mem_cons] at all
      simp [comma, all.1, ih all.2]
  cases texts with
  | nil => rfl
  | cons first others =>
    rw [List.forall_mem_cons] at all
    simp [commaSeparated, all.1, later all.2]

theorem headTextChars (fixed : ∀ c, headChar c = true → kind c = true) (returnType : ValueType)
    {name : String} {params : List Parameter} (attributes : List Attribute)
    (named : allChars kind name = true) (called : ∀ p ∈ params, allChars kind p.name = true) :
    allChars kind (headText returnType name params attributes) = true := by
  have marks : allChars kind " " = true ∧ allChars kind "(" = true ∧ allChars kind ")" = true :=
    ⟨allCharsMono fixed (by decide), allCharsMono fixed (by decide), allCharsMono fixed (by decide)⟩
  have params : allChars kind (paramsText params) = true := by
    refine commaSeparatedChars fixed (List.forall_mem_map.mpr fun p member => ?_)
    simp [Parameter.text, allCharsMono fixed p.type.textChars, marks, called p member]
  simp [headText, allCharsMono fixed returnType.textChars, marks, named, params,
    allCharsMono fixed (attributesChars attributes)]

namespace Expr

def ownChars (kind : Char → Bool) : Expr → Bool
  | .id name => allChars kind name
  | .str value => allChars kind value
  | .method _ name _ _ => allChars kind name
  | _ => true

end Expr

section

variable (fixed : ∀ c, codeChar c = true → kind c = true)
include fixed

theorem bracketsChars : allChars kind "(" = true ∧ allChars kind ")" = true :=
  ⟨allCharsMono fixed (by decide), allCharsMono fixed (by decide)⟩

theorem parenthesizedChars {needed : Bool} (all : allChars kind text = true) :
    allChars kind (parenthesized needed text) = true := by
  unfold parenthesized
  split <;> simp [bracketsChars fixed, all]

mutual

theorem Expr.textChars : (e : Expr) → e.Every (Expr.ownChars kind) → allChars kind e.text = true
  | .id name, every => Expr.everySelf every
  | .int value, _ => by
    have atoms : ∀ c ∈ (Expr.int value).chars, kind c = true := by
      intro c member
      have atom := Expr.intAtoms value c member
      simp only [atomChar, Bool.or_eq_true, beq_iff_eq] at atom
      rcases atom with word | rfl
      · exact fixed c (headCode (attributeHead (wordAttribute word)))
      · exact fixed '-' (by decide)
    exact allCharsIff.mpr atoms
  | .bool value, _ => by cases value <;> exact allCharsMono fixed (by decide)
  | .str value, every => by
    have own : allChars kind value = true := Expr.everySelf every
    have quote : allChars kind "\"" = true := allCharsMono fixed (by decide)
    simp [Expr.text, quote, own]
  | .nil, _ => allCharsMono fixed (by decide)
  | .hole, _ => allCharsMono fixed (by decide)
  | .call callee args, every => by
    obtain ⟨_, calleeEvery, argsEvery⟩ := Expr.everyCall.mp every
    simp [Expr.text, bracketsChars fixed, parenthesizedChars fixed (callee.textChars calleeEvery),
      itemsTextChars "" rfl args argsEvery]
  | .method receiver name args modifying, every => by
    obtain ⟨own, receiverEvery, argsEvery⟩ := Expr.everyMethod.mp every
    have named : allChars kind name = true := own
    have access : allChars kind (if modifying then "~" else ".") = true := by
      cases modifying <;> exact allCharsMono fixed (by decide)
    simp [Expr.text, bracketsChars fixed, access, named,
      parenthesizedChars fixed (receiver.textChars receiverEvery), itemsTextChars "" rfl args argsEvery]
  | .binary op left right, every => by
    obtain ⟨_, leftEvery, rightEvery⟩ := Expr.everyBinary.mp every
    have space : allChars kind " " = true := allCharsMono fixed (by decide)
    have sign : allChars kind op.sign = true := by cases op <;> exact allCharsMono fixed (by decide)
    simp [Expr.text, space, sign, parenthesizedChars fixed (left.textChars leftEvery),
      parenthesizedChars fixed (right.textChars rightEvery)]
  | .unary op operand, every => by
    have sign : allChars kind op.sign = true := by cases op <;> exact allCharsMono fixed (by decide)
    simp [Expr.text, sign,
      parenthesizedChars fixed (operand.textChars (Expr.everyUnary.mp every).2)]
  | .ternary cond onTrue onFalse, every => by
    obtain ⟨_, condEvery, trueEvery, falseEvery⟩ := Expr.everyTernary.mp every
    have marks : allChars kind " ? " = true ∧ allChars kind " : " = true :=
      ⟨allCharsMono fixed (by decide), allCharsMono fixed (by decide)⟩
    simp [Expr.text, marks, parenthesizedChars fixed (cond.textChars condEvery),
      parenthesizedChars fixed (onTrue.textChars trueEvery),
      parenthesizedChars fixed (onFalse.textChars falseEvery)]
  | .tensor items, every => by
    simp [Expr.text, bracketsChars fixed, itemsTextChars "" rfl items (Expr.everyTensor.mp every).2]
  | .tuple items, every => by
    have brackets : allChars kind "[" = true ∧ allChars kind "]" = true :=
      ⟨allCharsMono fixed (by decide), allCharsMono fixed (by decide)⟩
    simp [Expr.text, brackets, itemsTextChars "" rfl items (Expr.everyTuple.mp every).2]

theorem itemsTextChars (separator : String) (separates : allChars kind separator = true) :
    (items : List Expr) → (∀ item ∈ items, item.Every (Expr.ownChars kind)) →
    allChars kind (exprsText separator items) = true
  | [], _ => rfl
  | item :: items, every => by
    rw [List.forall_mem_cons] at every
    have later := itemsTextChars ", " (allCharsMono fixed (by decide)) items every.2
    simp [exprsText, separates, item.textChars every.1, later]

end

end

end CompilationUnit
