import CompilationUnit.Proofs.Code.Shape

/-! Splitting the text of a well-formed expression into the texts of its parts: at the first space, comma
or closing bracket, or at the last dot, that stands outside. -/
namespace CompilationUnit
namespace Expr

variable {e f : Expr}

theorem phraseOutside (spelled : e.Every wellSpelled) : Outside (fun c => phraseChar c = true) e.chars := by
  have operandPhrases (operand : Expr) (operandSpelled : operand.Every wellSpelled) :
      Outside (fun c => phraseChar c = true) operand.operandChars :=
    outsideMono (fun _ char => (operandPhrase char).1) (operandOutside operand operandSpelled)
  cases e with
  | binary op left right =>
    obtain ⟨_, leftSpelled, rightSpelled⟩ := everyBinary.mp spelled
    rw [charsBinary, outsideAppend (operandBalanced (left.charsBalanced leftSpelled)), outsideCons rfl,
      outsideAppend (signBalanced op), outsideCons rfl]
    refine ⟨operandPhrases left leftSpelled, rfl, ?_, rfl, operandPhrases right rightSpelled⟩
    rw [outsideSingles] <;> cases op <;> simp [BinaryOp.sign, outer, opensGroup, phraseChar, closesGroup]
  | unary op operand =>
    rw [charsUnary, outsideCons (by cases op <;> rfl)]
    exact ⟨by cases op <;> rfl, operandPhrases operand (everyUnary.mp spelled).2⟩
  | ternary cond onTrue onFalse =>
    obtain ⟨_, condSpelled, trueSpelled, falseSpelled⟩ := everyTernary.mp spelled
    rw [charsTernary, outsideAppend (operandBalanced (cond.charsBalanced condSpelled)), outsideCons rfl,
      outsideCons rfl, outsideCons rfl, outsideAppend (operandBalanced (onTrue.charsBalanced trueSpelled)),
      outsideCons rfl, outsideCons rfl, outsideCons rfl]
    exact ⟨operandPhrases cond condSpelled, rfl, rfl, rfl, operandPhrases onTrue trueSpelled, rfl, rfl, rfl,
      operandPhrases onFalse falseSpelled⟩
  | id _ | int _ | bool _ | str _ | nil | hole | call _ _ | method _ _ _ _ | tensor _ | tuple _ =>
    rw [← operandOfOther rfl]
    exact operandPhrases _ spelled

theorem charsNonempty (spelled : e.Every wellSpelled) : e.chars ≠ [] := by
  cases e with
  | binary op left right => simp [charsBinary]
  | unary op operand => simp [charsUnary]
  | ternary cond onTrue onFalse => simp [charsTernary]
  | id _ | int _ | bool _ | str _ | nil | hole | call _ _ | method _ _ _ _ | tensor _ | tuple _ =>
    obtain ⟨c, cs, same, _⟩ := operandBegins _ spelled
    rw [operandOfOther rfl] at same
    simp [same]

theorem groupApart (spelled : e.Every wellSpelled) (formed : f.Every wellFormed) :
    '(' :: (e.chars ++ ')' :: []) ≠ f.chars := by
  intro same
  have fSpelled := formedSpelled formed
  have grouped : f.shape = .grouped := by
    have nothing : outline ('(' :: (e.chars ++ ')' :: [])) = ('(' :: (e.chars ++ [')'])).map (·, false) := by
      rw [outlineGroup rfl rfl (e.charsBalanced spelled)]
      exact List.append_nil _
    rw [← shapeOfChars formed, ← same, shapeUnspaced (by simp [nothing])]
    simp [nothing, simpleShape]
  rcases covered grouped with ⟨items, rfl⟩ | ⟨callee, args, computed, rfl⟩
  · rw [charsTensor, List.cons.injEq] at same
    have inner : e.chars = itemsChars items := (List.append_inj' same.2 rfl).1
    cases items with
    | nil => exact charsNonempty spelled inner
    | cons item items =>
      cases items with
      | nil => exact absurd (formedUnmistakable formed) (by simp [unmistakable])
      | cons next items =>
        rw [itemsCons] at inner
        have itemSpelled := (everyTensor.mp fSpelled).2 item List.mem_cons_self
        exact outsideNowhere (item.charsBalanced itemSpelled) rfl (phraseOutside spelled) (by decide) inner
  · rw [charsComputed computed, List.cons.injEq] at same
    have calleeSpelled := (everyCall.mp fSpelled).2.1
    have nothing := (groupSplit (e.charsBalanced spelled) (callee.charsBalanced calleeSpelled) rfl rfl same.2).2
    contradiction

theorem operandSame (eFormed : e.Every wellFormed) (fFormed : f.Every wellFormed)
    (same : e.operandChars = f.operandChars) : e.chars = f.chars := by
  cases eOperation : e.isOperation <;> cases fOperation : f.isOperation
  · rwa [operandOfOther eOperation, operandOfOther fOperation] at same
  · rw [operandOfOther eOperation, operandOfOperation fOperation] at same
    exact absurd same.symm (groupApart (formedSpelled fFormed) eFormed)
  · rw [operandOfOperation eOperation, operandOfOther fOperation] at same
    exact absurd same (groupApart (formedSpelled eFormed) fFormed)
  · rw [operandOfOperation eOperation, operandOfOperation fOperation, List.cons.injEq] at same
    exact (List.append_inj' same.2 rfl).1

theorem operandsSplit {rest rest' : List Char} (eFormed : e.Every wellFormed) (fFormed : f.Every wellFormed)
    (same : e.operandChars ++ ' ' :: rest = f.operandChars ++ ' ' :: rest') :
    e.chars = f.chars ∧ rest = rest' := by
  have eSpelled := formedSpelled eFormed
  have fSpelled := formedSpelled fFormed
  have unspaced {g : Expr} (spelled : g.Every wellSpelled) : Outside (· ≠ ' ') g.operandChars :=
    outsideMono (fun _ char => (operandPhrase char).2) (operandOutside g spelled)
  obtain ⟨operands, _, rests⟩ := outsideFirst (operandBalanced (e.charsBalanced eSpelled))
    (operandBalanced (f.charsBalanced fSpelled)) rfl rfl (not_not_intro rfl) (not_not_intro rfl) same
    (unspaced eSpelled) (unspaced fSpelled)
  exact ⟨operandSame eFormed fFormed operands, rests⟩

theorem signsSplit {op op' : BinaryOp} {rest rest' : List Char}
    (same : op.sign.toList ++ ' ' :: rest = op'.sign.toList ++ ' ' :: rest') : op = op' ∧ rest = rest' := by
  have unspaced (sign : BinaryOp) : ∀ c ∈ sign.sign.toList, c ≠ ' ' := by
    cases sign <;> simp [BinaryOp.sign]
  obtain ⟨signs, _, rests⟩ := splitFirst (unspaced op) (unspaced op') (not_not_intro rfl)
    (not_not_intro rfl) same
  exact ⟨signInjective signs, rests⟩

theorem signNoQuestion {op : BinaryOp} {rest rest' : List Char} :
    op.sign.toList ++ ' ' :: rest ≠ '?' :: ' ' :: rest' := by
  cases op <;> simp [BinaryOp.sign]

theorem wordsSplit {name name' : String} {rest rest' : List Char} (word : isWord name = true)
    (word' : isWord name' = true) (same : name.toList ++ '(' :: rest = name'.toList ++ '(' :: rest') :
    name = name' ∧ rest = rest' := by
  obtain ⟨names, _, rests⟩ := splitFirst (p := (wordChar · = true)) (wordLetters word) (wordLetters word')
    (by decide) (by decide) same
  exact ⟨String.toList_inj.mp names, rests⟩

theorem itemsSplit {items items' : List Expr} (eFormed : e.Every wellFormed) (fFormed : f.Every wellFormed)
    (same : itemsChars (e :: items) = itemsChars (f :: items')) :
    e.chars = f.chars ∧ laterChars items = laterChars items' := by
  have eSpelled := formedSpelled eFormed
  have fSpelled := formedSpelled fFormed
  have eOutside := phraseOutside eSpelled
  have fOutside := phraseOutside fSpelled
  rw [itemsCons, itemsCons] at same
  cases items <;> cases items'
  · exact ⟨by simpa [laterChars] using same, rfl⟩
  · rw [laterChars, List.append_nil] at same
    exact absurd same (outsideNowhere (f.charsBalanced fSpelled) rfl eOutside (by decide))
  · rw [laterChars.eq_1, List.append_nil] at same
    exact absurd same.symm (outsideNowhere (e.charsBalanced eSpelled) rfl fOutside (by decide))
  · obtain ⟨first, _, later⟩ := outsideFirst (e.charsBalanced eSpelled) (f.charsBalanced fSpelled) rfl rfl
      (by decide) (by decide) same eOutside fOutside
    exact ⟨first, congrArg (',' :: ·) later⟩

theorem methodSplit {receiver receiver' : Expr} {name name' : String} {args args' : List Expr}
    {modifying modifying' : Bool} (formed : (method receiver name args modifying).Every wellFormed)
    (formed' : (method receiver' name' args' modifying').Every wellFormed)
    (same : (method receiver name args modifying).chars = (method receiver' name' args' modifying').chars) :
    receiver.chars = receiver'.chars ∧ name = name' ∧ itemsChars args = itemsChars args' ∧
      modifying = modifying' := by
  obtain ⟨word, receiverSpelled, argsSpelled⟩ := everyMethod.mp (formedSpelled formed)
  obtain ⟨word', receiverSpelled', argsSpelled'⟩ := everyMethod.mp (formedSpelled formed')
  have undotted {name : String} {args : List Expr} (word : isWord name = true)
      (spelled : ∀ arg ∈ args, arg.Every wellSpelled) :
      Outside (fun c => wordChar c = true) (name.toList ++ '(' :: (itemsChars args ++ ')' :: [])) :=
    (outsideAppend (wordsBalanced (wordLetters word))).mpr
      ⟨wordsOutside (wordLetters word), argsOutside spelled⟩
  rw [charsMethod, charsMethod] at same
  obtain ⟨receivers, access, calls⟩ := outsideLast
    (operandBalanced (receiver.charsBalanced receiverSpelled))
    (operandBalanced (receiver'.charsBalanced receiverSpelled'))
    (by cases modifying <;> rfl) (by cases modifying' <;> rfl)
    (by cases modifying <;> decide) (by cases modifying' <;> decide) same
    (undotted word argsSpelled) (undotted word' argsSpelled')
  obtain ⟨names, groups⟩ := wordsSplit word word' calls
  refine ⟨operandSame (everyMethod.mp formed).2.1 (everyMethod.mp formed').2.1 receivers, names,
    (List.append_inj' groups rfl).1, ?_⟩
  revert access
  cases modifying <;> cases modifying' <;> decide

theorem computedSplit {callee callee' : Expr} {args args' : List Expr} (computed : callee.isName = false)
    (computed' : callee'.isName = false) (spelled : callee.Every wellSpelled)
    (spelled' : callee'.Every wellSpelled) (same : (call callee args).chars = (call callee' args').chars) :
    callee.chars = callee'.chars ∧ itemsChars args = itemsChars args' := by
  rw [charsComputed computed, charsComputed computed', List.cons.injEq] at same
  obtain ⟨callees, groups⟩ := groupSplit (callee.charsBalanced spelled) (callee'.charsBalanced spelled')
    rfl rfl same.2
  exact ⟨callees, (List.append_inj' (List.cons.inj groups).2 rfl).1⟩

theorem tensorNotComputed {items args : List Expr} {callee : Expr} (computed : callee.isName = false)
    (itemsSpelled : ∀ item ∈ items, item.Every wellSpelled) (spelled : callee.Every wellSpelled) :
    (tensor items).chars ≠ (call callee args).chars := by
  intro same
  rw [charsTensor, charsComputed computed, List.cons.injEq] at same
  have nothing := (groupSplit (itemsBalanced items itemsSpelled) (callee.charsBalanced spelled) rfl rfl
    same.2).2
  contradiction

end Expr
end CompilationUnit
