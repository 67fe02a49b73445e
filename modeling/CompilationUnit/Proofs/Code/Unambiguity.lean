import CompilationUnit.Code.Equality
import CompilationUnit.Proofs.Code.Splitting

/-! The printed expression determines the expression. Texts that are the same have the same shape and are
split into the same parts; words and literals are told apart by their characters. -/
namespace CompilationUnit

/- A sign before a positive literal is the sign of the literal. -/
def Expr.signed : UnaryOp → Expr → Expr
  | .neg, .int value => if 1 ≤ value.toInt then .int (-value) else .unary .neg (.int value)
  | op, operand => .unary op operand

mutual

def Expr.folded : Expr → Expr
  | .id name => .id name
  | .int value => .int value
  | .bool value => .bool value
  | .str value => .str value
  | .nil => .nil
  | .hole => .hole
  | .call callee args => .call callee.folded (foldedAll args)
  | .method receiver name args modifying => .method receiver.folded name (foldedAll args) modifying
  | .binary op left right => .binary op left.folded right.folded
  | .unary op operand => .signed op operand.folded
  | .ternary cond onTrue onFalse => .ternary cond.folded onTrue.folded onFalse.folded
  | .tensor items => .tensor (foldedAll items)
  | .tuple items => .tuple (foldedAll items)

def foldedAll : List Expr → List Expr
  | [] => []
  | e :: es => e.folded :: foldedAll es

end

namespace Expr

variable {e f : Expr}

theorem naturalInjective {value other : Int64} (natural : 0 ≤ value.toInt) (natural' : 0 ≤ other.toInt)
    (same : (int value).chars = (int other).chars) : value = other := by
  rw [naturalChars natural, naturalChars natural'] at same
  have magnitude := digitsInjective same
  exact Int64.toInt_inj.mp (by omega)

theorem negativeInjective {value other : Int64} (negative : value.toInt < 0) (negative' : other.toInt < 0)
    (same : (int value).chars = (int other).chars) : value = other := by
  rw [negativeChars negative, negativeChars negative', List.cons.injEq] at same
  have magnitude := digitsInjective same.2
  exact Int64.toInt_inj.mp (by omega)

theorem wordShaped {cs : List Char} (letters : ∀ c ∈ cs, wordChar c = true) : shapeOf cs = .word := by
  have absent {c : Char} (other : wordChar c = false) : (c, true) ∉ outline cs := fun shown =>
    Bool.false_ne_true (other.symm.trans (wordsOutside letters c shown))
  have unsigned {c : Char} (other : wordChar c = false) : cs.head? ≠ some c := fun first =>
    wordOther (letters c (List.mem_of_head? first)) other rfl
  rw [shapeUnspaced (absent rfl), if_neg (not_or.mpr ⟨unsigned rfl, unsigned rfl⟩),
    if_neg (not_or.mpr ⟨absent rfl, absent rfl⟩)]
  exact simpleWord letters

theorem numeralIff (formed : e.Every wellFormed) (word : e.shape = .word) :
    e.chars.head?.any Char.isDigit = true ↔ ∃ value, e = int value ∧ 0 ≤ value.toInt := by
  rcases covered word with ⟨name, rfl⟩ | ⟨value, rfl, natural⟩ | literal
  · obtain ⟨c, cs, same, digit, _⟩ := wordSource (everySelf (formedSpelled formed))
    simp [chars, text, same, digit]
  · obtain ⟨c, cs, same, digit⟩ := digitsFirst value.toInt.natAbs
    simp [naturalChars natural, same, digit, natural]
  · simp only [literalWords, List.mem_cons, List.not_mem_nil, or_false] at literal
    rcases literal with rfl | rfl | rfl <;> simp [chars, text]

theorem reservedApart {name literal : String} (formed : (id name).Every wellFormed)
    (reserved : literal ∈ ["true", "false", "null", "_"]) : name ≠ literal := by
  rintro rfl
  have free := formedUnmistakable formed
  rw [unmistakable, List.contains_iff_mem.mpr reserved] at free
  contradiction

theorem literalApart {name : String} (formed : (id name).Every wellFormed) (literal : e ∈ literalWords) :
    (id name).text ≠ e.text := by
  simp only [literalWords, List.mem_cons, List.not_mem_nil, or_false] at literal
  rcases literal with rfl | rfl | rfl <;> exact reservedApart formed (by simp [text])

theorem literalSame : ∀ e ∈ literalWords, ∀ f ∈ literalWords, e.text = f.text → e = f := by decide

theorem wordSame (eFormed : e.Every wellFormed) (fFormed : f.Every wellFormed) (eWord : e.shape = .word)
    (same : e.chars = f.chars) : e = f := by
  have fWord : f.shape = .word := by
    rw [← shapeOfChars fFormed, ← same, shapeOfChars eFormed, eWord]
  by_cases numeral : e.chars.head?.any Char.isDigit = true
  · obtain ⟨value, rfl, natural⟩ := (numeralIff eFormed eWord).mp numeral
    rw [same] at numeral
    obtain ⟨other, rfl, natural'⟩ := (numeralIff fFormed fWord).mp numeral
    rw [naturalInjective natural natural' same]
  · have eOther := mt (numeralIff eFormed eWord).mpr numeral
    rw [same] at numeral
    have fOther := mt (numeralIff fFormed fWord).mpr numeral
    rw [← textIff] at same
    rcases covered eWord with ⟨name, rfl⟩ | digits | literal
    · rcases covered fWord with ⟨name', rfl⟩ | digits' | literal'
      · exact congrArg id same
      · exact absurd digits' fOther
      · exact absurd same (literalApart eFormed literal')
    · exact absurd digits eOther
    · rcases covered fWord with ⟨name', rfl⟩ | digits' | literal'
      · exact absurd same.symm (literalApart fFormed literal)
      · exact absurd digits' fOther
      · exact literalSame e literal f literal' same

theorem signedLiteral {op : UnaryOp} {operand : Expr} {value : Int64}
    (formed : operand.Every wellFormed) (same : (unary op operand).chars = (int value).chars) :
    (unary op operand).folded = int value := by
  rw [charsUnary] at same
  obtain ⟨rfl, negative⟩ : op = .neg ∧ value.toInt < 0 := by
    obtain ⟨sign, other, literal, negative⟩ :=
      signOfChars (e := int value) (by simp [Every, all, wellSpelled]) same.symm
    cases literal
    exact ⟨sign, negative⟩
  rw [negativeChars negative, List.cons.injEq] at same
  obtain ⟨c, cs, digits, digit⟩ := digitsFirst value.toInt.natAbs
  have single : operand.isOperation = false := by
    by_contra operation
    rw [operandOfOperation (by simpa using operation), digits, List.cons.injEq] at same
    obtain ⟨_, rfl, _⟩ := same
    contradiction
  rw [operandOfOther single] at same
  have word : operand.shape = .word := by
    rw [← shapeOfChars formed, same.2]
    exact wordShaped (digitsWord _)
  obtain ⟨other, rfl, natural⟩ := (numeralIff formed word).mp (by simp [same.2, digits, digit])
  rw [naturalChars natural] at same
  have magnitude := digitsInjective same.2
  have negated : (-other).toInt = -other.toInt := negatedInt fun least => by
    rw [least] at natural
    contradiction
  rw [folded, folded, signed, if_pos (by omega)]
  exact congrArg int (Int64.toInt_inj.mp (by omega))

theorem sameShape (eFormed : e.Every wellFormed) (fFormed : f.Every wellFormed) (same : e.chars = f.chars) :
    e.shape.Covers f := by
  rw [← shapeOfChars eFormed, same, shapeOfChars fFormed]
  exact shapeCovers f

theorem binaryNotTernary {op : BinaryOp} {left right cond onTrue onFalse : Expr}
    (formed : (binary op left right).Every wellFormed)
    (formed' : (ternary cond onTrue onFalse).Every wellFormed) :
    (binary op left right).chars ≠ (ternary cond onTrue onFalse).chars := by
  intro same
  rw [charsBinary, charsTernary] at same
  exact signNoQuestion (operandsSplit (everyBinary.mp formed).2.1 (everyTernary.mp formed').2.1 same).2

theorem binarySplit {op op' : BinaryOp} {left right left' right' : Expr}
    (formed : (binary op left right).Every wellFormed) (formed' : (binary op' left' right').Every wellFormed)
    (same : (binary op left right).chars = (binary op' left' right').chars) :
    op = op' ∧ left.chars = left'.chars ∧ right.chars = right'.chars := by
  obtain ⟨_, leftFormed, rightFormed⟩ := everyBinary.mp formed
  obtain ⟨_, leftFormed', rightFormed'⟩ := everyBinary.mp formed'
  rw [charsBinary, charsBinary] at same
  obtain ⟨lefts, rest⟩ := operandsSplit leftFormed leftFormed' same
  obtain ⟨ops, rights⟩ := signsSplit rest
  exact ⟨ops, lefts, operandSame rightFormed rightFormed' rights⟩

theorem ternarySplit {cond onTrue onFalse cond' onTrue' onFalse' : Expr}
    (formed : (ternary cond onTrue onFalse).Every wellFormed)
    (formed' : (ternary cond' onTrue' onFalse').Every wellFormed)
    (same : (ternary cond onTrue onFalse).chars = (ternary cond' onTrue' onFalse').chars) :
    cond.chars = cond'.chars ∧ onTrue.chars = onTrue'.chars ∧ onFalse.chars = onFalse'.chars := by
  obtain ⟨_, condFormed, trueFormed, falseFormed⟩ := everyTernary.mp formed
  obtain ⟨_, condFormed', trueFormed', falseFormed'⟩ := everyTernary.mp formed'
  rw [charsTernary, charsTernary] at same
  obtain ⟨conds, rest⟩ := operandsSplit condFormed condFormed' same
  obtain ⟨trues, rest⟩ := operandsSplit trueFormed trueFormed' (by simpa using rest)
  exact ⟨conds, trues, operandSame falseFormed falseFormed' (by simpa using rest)⟩

theorem unarySplit {op op' : UnaryOp} {operand operand' : Expr} (formed : operand.Every wellFormed)
    (formed' : operand'.Every wellFormed) (same : (unary op operand).chars = (unary op' operand').chars) :
    op = op' ∧ operand.chars = operand'.chars := by
  rw [charsUnary, charsUnary, List.cons.injEq] at same
  refine ⟨?_, operandSame formed formed' same.2⟩
  revert same
  cases op <;> cases op' <;> simp [UnaryOp.char]

theorem callSplit {name name' : String} {args args' : List Expr} (word : isWord name = true)
    (word' : isWord name' = true) (same : (call (id name) args).chars = (call (id name') args').chars) :
    name = name' ∧ itemsChars args = itemsChars args' := by
  rw [charsCall, charsCall] at same
  obtain ⟨names, groups⟩ := wordsSplit word word' same
  exact ⟨names, (List.append_inj' groups rfl).1⟩

theorem callNotNil {name : String} {args : List Expr} (formed : (id name).Every wellFormed) :
    (call (id name) args).chars ≠ nil.chars := by
  intro same
  rw [charsCall, charsNil] at same
  have names := (wordsSplit (everySelf (formedSpelled formed)) (by decide) same).1
  exact reservedApart formed (by simp) names

theorem laterSame {items items' : List Expr} (same : laterChars items = laterChars items') :
    itemsChars items = itemsChars items' := by
  cases items <;> cases items' <;> simp_all [laterChars]

end Expr

/- Recursion on the first of two expressions; the second one has the same shape, and its parts have the
texts of the parts of the first. -/
mutual

theorem Expr.foldedOfChars : (e f : Expr) → e.Every Expr.wellFormed → f.Every Expr.wellFormed →
    e.chars = f.chars → e.folded = f.folded
  | .id name, f, eFormed, fFormed, same => by
    rw [Expr.wordSame eFormed fFormed rfl same]
  | .int value, f, eFormed, fFormed, same => by
    by_cases negative : value.toInt < 0
    · have shapes := Expr.sameShape eFormed fFormed same
      rw [Expr.shape, if_pos negative] at shapes
      rcases shapes with ⟨op, operand, rfl⟩ | ⟨other, rfl, negative'⟩
      · exact (Expr.signedLiteral (Expr.everyUnary.mp fFormed).2 same.symm).symm
      · rw [Expr.negativeInjective negative negative' same]
    · rw [Expr.wordSame eFormed fFormed (if_neg negative) same]
  | .bool value, f, eFormed, fFormed, same => by
    rw [Expr.wordSame eFormed fFormed rfl same]
  | .hole, f, eFormed, fFormed, same => by
    rw [Expr.wordSame eFormed fFormed rfl same]
  | .str value, f, eFormed, fFormed, same => by
    obtain ⟨value', rfl⟩ := Expr.sameShape eFormed fFormed same
    rw [Expr.charsStr, Expr.charsStr, List.cons.injEq] at same
    rw [String.toList_inj.mp (List.append_inj' same.2 rfl).1]
  | .nil, f, eFormed, fFormed, same => by
    rcases Expr.sameShape eFormed fFormed same with ⟨name, args, rfl⟩ | rfl
    · exact absurd same.symm (Expr.callNotNil (Expr.everyCall.mp fFormed).2.1)
    · rfl
  | .call callee args, f, eFormed, fFormed, same => by
    obtain ⟨_, calleeFormed, argsFormed⟩ := Expr.everyCall.mp eFormed
    have shapes := Expr.sameShape eFormed fFormed same
    rw [Expr.shape] at shapes
    cases named : callee.isName with
    | true =>
      rw [if_pos named] at shapes
      cases callee with
      | id name =>
        rcases shapes with ⟨name', args', rfl⟩ | rfl
        · obtain ⟨_, calleeFormed', argsFormed'⟩ := Expr.everyCall.mp fFormed
          obtain ⟨rfl, argsSame⟩ := Expr.callSplit (Expr.everySelf (Expr.formedSpelled calleeFormed))
            (Expr.everySelf (Expr.formedSpelled calleeFormed')) same
          simp only [Expr.folded, foldedOfItems args args' argsFormed argsFormed' argsSame]
        · exact absurd same (Expr.callNotNil calleeFormed)
      | _ => contradiction
    | false =>
      rw [named, if_neg Bool.false_ne_true] at shapes
      rcases shapes with ⟨items, rfl⟩ | ⟨callee', args', computed, rfl⟩
      · exact absurd same.symm (Expr.tensorNotComputed named
          (fun item member => Expr.formedSpelled ((Expr.everyTensor.mp fFormed).2 item member))
          (Expr.formedSpelled calleeFormed))
      · obtain ⟨_, calleeFormed', argsFormed'⟩ := Expr.everyCall.mp fFormed
        obtain ⟨callees, argsSame⟩ := Expr.computedSplit named computed (Expr.formedSpelled calleeFormed)
          (Expr.formedSpelled calleeFormed') same
        rw [Expr.folded, Expr.folded, callee.foldedOfChars callee' calleeFormed calleeFormed' callees,
          foldedOfItems args args' argsFormed argsFormed' argsSame]
  | .method receiver name args modifying, f, eFormed, fFormed, same => by
    obtain ⟨receiver', name', args', modifying', rfl⟩ := Expr.sameShape eFormed fFormed same
    obtain ⟨receivers, rfl, argsSame, rfl⟩ := Expr.methodSplit eFormed fFormed same
    obtain ⟨_, receiverFormed, argsFormed⟩ := Expr.everyMethod.mp eFormed
    obtain ⟨_, receiverFormed', argsFormed'⟩ := Expr.everyMethod.mp fFormed
    rw [Expr.folded, Expr.folded,
      receiver.foldedOfChars receiver' receiverFormed receiverFormed' receivers,
      foldedOfItems args args' argsFormed argsFormed' argsSame]
  | .binary op left right, f, eFormed, fFormed, same => by
    rcases Expr.sameShape eFormed fFormed same with ⟨op', left', right', rfl⟩ | ⟨cond, onTrue, onFalse, rfl⟩
    · obtain ⟨rfl, lefts, rights⟩ := Expr.binarySplit eFormed fFormed same
      obtain ⟨_, leftFormed, rightFormed⟩ := Expr.everyBinary.mp eFormed
      obtain ⟨_, leftFormed', rightFormed'⟩ := Expr.everyBinary.mp fFormed
      rw [Expr.folded, Expr.folded, left.foldedOfChars left' leftFormed leftFormed' lefts,
        right.foldedOfChars right' rightFormed rightFormed' rights]
    · exact absurd same (Expr.binaryNotTernary eFormed fFormed)
  | .unary op operand, f, eFormed, fFormed, same => by
    have operandFormed := (Expr.everyUnary.mp eFormed).2
    rcases Expr.sameShape eFormed fFormed same with ⟨op', operand', rfl⟩ | ⟨value, rfl, _⟩
    · have operandFormed' := (Expr.everyUnary.mp fFormed).2
      obtain ⟨rfl, operands⟩ := Expr.unarySplit operandFormed operandFormed' same
      rw [Expr.folded, Expr.folded, operand.foldedOfChars operand' operandFormed operandFormed' operands]
    · exact Expr.signedLiteral operandFormed same
  | .ternary cond onTrue onFalse, f, eFormed, fFormed, same => by
    rcases Expr.sameShape eFormed fFormed same with
      ⟨op, left, right, rfl⟩ | ⟨cond', onTrue', onFalse', rfl⟩
    · exact absurd same.symm (Expr.binaryNotTernary fFormed eFormed)
    · obtain ⟨conds, trues, falses⟩ := Expr.ternarySplit eFormed fFormed same
      obtain ⟨_, condFormed, trueFormed, falseFormed⟩ := Expr.everyTernary.mp eFormed
      obtain ⟨_, condFormed', trueFormed', falseFormed'⟩ := Expr.everyTernary.mp fFormed
      rw [Expr.folded, Expr.folded, cond.foldedOfChars cond' condFormed condFormed' conds,
        onTrue.foldedOfChars onTrue' trueFormed trueFormed' trues,
        onFalse.foldedOfChars onFalse' falseFormed falseFormed' falses]
  | .tensor items, f, eFormed, fFormed, same => by
    obtain ⟨_, itemsFormed⟩ := Expr.everyTensor.mp eFormed
    rcases Expr.sameShape eFormed fFormed same with ⟨items', rfl⟩ | ⟨callee, args, computed, rfl⟩
    · rw [Expr.charsTensor, Expr.charsTensor, List.cons.injEq] at same
      rw [Expr.folded, Expr.folded, foldedOfItems items items' itemsFormed
        (Expr.everyTensor.mp fFormed).2 (List.append_inj' same.2 rfl).1]
    · exact absurd same (Expr.tensorNotComputed computed
        (fun item member => Expr.formedSpelled (itemsFormed item member))
        (Expr.formedSpelled (Expr.everyCall.mp fFormed).2.1))
  | .tuple items, f, eFormed, fFormed, same => by
    obtain ⟨items', rfl⟩ := Expr.sameShape eFormed fFormed same
    rw [Expr.charsTuple, Expr.charsTuple, List.cons.injEq] at same
    rw [Expr.folded, Expr.folded, foldedOfItems items items' (Expr.everyTuple.mp eFormed).2
      (Expr.everyTuple.mp fFormed).2 (List.append_inj' same.2 rfl).1]

theorem foldedOfItems : (items items' : List Expr) → (∀ item ∈ items, item.Every Expr.wellFormed) →
    (∀ item ∈ items', item.Every Expr.wellFormed) → itemsChars items = itemsChars items' →
    foldedAll items = foldedAll items'
  | [], [], _, _, _ => rfl
  | [], item :: items, _, formed, same => by
    have itemSpelled := Expr.formedSpelled (formed item List.mem_cons_self)
    rw [itemsNil, itemsCons, eq_comm, List.append_eq_nil_iff] at same
    exact absurd same.1 (Expr.charsNonempty itemSpelled)
  | item :: items, [], formed, _, same => by
    have itemSpelled := Expr.formedSpelled (formed item List.mem_cons_self)
    rw [itemsNil, itemsCons, List.append_eq_nil_iff] at same
    exact absurd same.1 (Expr.charsNonempty itemSpelled)
  | item :: items, item' :: items', formed, formed', same => by
    obtain ⟨firsts, laters⟩ := Expr.itemsSplit (formed item List.mem_cons_self)
      (formed' item' List.mem_cons_self) same
    rw [foldedAll, foldedAll, item.foldedOfChars item' (formed item List.mem_cons_self)
        (formed' item' List.mem_cons_self) firsts,
      foldedOfItems items items' (fun e member => formed e (List.mem_cons_of_mem item member))
        (fun e member => formed' e (List.mem_cons_of_mem item' member)) (Expr.laterSame laters)]

end

namespace Expr

theorem printedAlike {e f : Expr} (eFormed : e.Every wellFormed) (fFormed : f.Every wellFormed)
    (same : e.text = f.text) : e.folded = f.folded :=
  e.foldedOfChars f eFormed fFormed (textIff.mp same)

theorem signPrintedAlike :
    (call (.id "f") [.unary .neg (.int 5), .str "), ("]).Every wellFormed ∧
    (call (.id "f") [.int (-5), .str "), ("]).Every wellFormed ∧
    (call (.id "f") [.unary .neg (.int 5), .str "), ("]).text =
      (call (.id "f") [.int (-5), .str "), ("]).text ∧
    (call (.id "f") [.unary .neg (.int 5), .str "), ("]).folded =
      (call (.id "f") [.int (-5), .str "), ("]).folded :=
  ⟨by decide, by decide, by decide, printedAlike (by decide) (by decide) (by decide)⟩

end Expr
end CompilationUnit
