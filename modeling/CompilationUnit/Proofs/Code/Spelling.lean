import CompilationUnit.Code.Text
import CompilationUnit.Proofs.Code.Outline
import CompilationUnit.Proofs.Json.Numerals
import CompilationUnit.Proofs.Occurrence

/-! The characters of printed expressions. Where names are words and strings hold no quotes, a printed
expression is balanced, and the spaces, commas and dots that stand outside its brackets tell how it was
put together. -/
namespace CompilationUnit

def wordChar (c : Char) : Bool := c.isAlphanum || c == '_' || c == '$'

def isWord (name : String) : Bool :=
  match name.toList with
  | [] => false
  | first :: others => !first.isDigit && (first :: others).all wordChar

namespace Expr

def wellSpelled : Expr → Bool
  | .id name => isWord name
  | .str value => !value.toList.contains '"'
  | .method _ name _ _ => isWord name
  | _ => true

def Every (p : Expr → Bool) (e : Expr) : Prop := ∀ inner ∈ e.all, p inner = true

instance (p : Expr → Bool) (e : Expr) : Decidable (e.Every p) :=
  inferInstanceAs (Decidable (∀ inner ∈ e.all, p inner = true))

def chars (e : Expr) : List Char := e.text.toList

def operandChars (e : Expr) : List Char := (parenthesized e.isOperation e.text).toList

end Expr

def itemsChars (items : List Expr) : List Char := (exprsText "" items).toList

def laterChars : List Expr → List Char
  | [] => []
  | items => ',' :: ' ' :: itemsChars items

def UnaryOp.char : UnaryOp → Char
  | .neg => '-'
  | .bitNot => '~'

def accessChar (modifying : Bool) : Char := if modifying then '~' else '.'

namespace Expr

variable {p : Expr → Bool}

theorem everySelf {e : Expr} (every : e.Every p) : p e = true := every e (allSelf e)

theorem everyItems {items : List Expr} :
    (∀ inner ∈ allOf items, p inner = true) ↔ ∀ item ∈ items, item.Every p := by
  simp only [Every, allOfIff, forall_exists_index, and_imp]
  exact ⟨fun all item member inner within => all inner item member within,
    fun all inner item member within => all item member inner within⟩

theorem everyCall {callee : Expr} {args : List Expr} : (call callee args).Every p ↔
    p (call callee args) = true ∧ callee.Every p ∧ ∀ arg ∈ args, arg.Every p := by
  simp only [← everyItems]
  simp [Every, all, or_imp, forall_and]

theorem everyMethod {receiver : Expr} {name : String} {args : List Expr} {modifying : Bool} :
    (method receiver name args modifying).Every p ↔
      p (method receiver name args modifying) = true ∧ receiver.Every p ∧ ∀ arg ∈ args, arg.Every p := by
  simp only [← everyItems]
  simp [Every, all, or_imp, forall_and]

theorem everyBinary {op : BinaryOp} {left right : Expr} : (binary op left right).Every p ↔
    p (binary op left right) = true ∧ left.Every p ∧ right.Every p := by
  simp [Every, all, or_imp, forall_and]

theorem everyUnary {op : UnaryOp} {operand : Expr} : (unary op operand).Every p ↔
    p (unary op operand) = true ∧ operand.Every p := by
  simp [Every, all]

theorem everyTernary {cond onTrue onFalse : Expr} : (ternary cond onTrue onFalse).Every p ↔
    p (ternary cond onTrue onFalse) = true ∧ cond.Every p ∧ onTrue.Every p ∧ onFalse.Every p := by
  simp [Every, all, or_imp, forall_and]

theorem everyTensor {items : List Expr} :
    (tensor items).Every p ↔ p (tensor items) = true ∧ ∀ item ∈ items, item.Every p := by
  simp only [← everyItems]
  simp [Every, all]

theorem everyTuple {items : List Expr} :
    (tuple items).Every p ↔ p (tuple items) = true ∧ ∀ item ∈ items, item.Every p := by
  simp only [← everyItems]
  simp [Every, all]

end Expr

section Printed

attribute [local simp] Expr.text exprsText

theorem signChars (op : UnaryOp) : op.sign.toList = [op.char] := by
  cases op <;> rfl

theorem itemsFollowed (separator : String) (e : Expr) (items : List Expr) :
    (exprsText separator (e :: items)).toList =
      separator.toList ++ (e.chars ++ laterChars items) := by
  cases items <;> simp [Expr.chars, laterChars, itemsChars]

@[simp]
theorem itemsNil : itemsChars [] = [] := rfl

@[simp]
theorem itemsCons (e : Expr) (items : List Expr) :
    itemsChars (e :: items) = e.chars ++ laterChars items := itemsFollowed "" e items

namespace Expr

theorem operandOfOperation {e : Expr} (operation : e.isOperation = true) :
    e.operandChars = '(' :: (e.chars ++ [')']) := by
  simp [operandChars, operation, parenthesized, chars]

theorem operandOfOther {e : Expr} (other : e.isOperation = false) : e.operandChars = e.chars := by
  simp [operandChars, other, parenthesized, chars]

theorem charsInt (value : Int64) : (int value).chars =
    (if value.toInt < 0 then ['-'] else []) ++ Nat.toDigits 10 value.toInt.natAbs := by
  rw [chars, text]
  exact Json.integerText value.toInt

theorem charsStr (value : String) : (str value).chars = '"' :: (value.toList ++ '"' :: []) := by
  simp [chars]

theorem charsNil : nil.chars = "null".toList ++ '(' :: (itemsChars [] ++ ')' :: []) := rfl

theorem charsCall (name : String) (args : List Expr) : (call (id name) args).chars =
    name.toList ++ '(' :: (itemsChars args ++ ')' :: []) := by
  simp [chars, isName, parenthesized, itemsChars]

theorem charsComputed {callee : Expr} (computed : callee.isName = false) (args : List Expr) :
    (call callee args).chars =
      '(' :: (callee.chars ++ ')' :: '(' :: (itemsChars args ++ ')' :: [])) := by
  simp [chars, computed, parenthesized, itemsChars]

theorem charsMethod (receiver : Expr) (name : String) (args : List Expr) (modifying : Bool) :
    (method receiver name args modifying).chars = receiver.operandChars ++
      accessChar modifying :: (name.toList ++ '(' :: (itemsChars args ++ ')' :: [])) := by
  cases modifying <;> simp [chars, operandChars, itemsChars, accessChar]

theorem charsBinary (op : BinaryOp) (left right : Expr) : (binary op left right).chars =
    left.operandChars ++ ' ' :: (op.sign.toList ++ ' ' :: right.operandChars) := by
  simp [chars, operandChars]

theorem charsUnary (op : UnaryOp) (operand : Expr) :
    (unary op operand).chars = op.char :: operand.operandChars := by
  simp [chars, operandChars, signChars]

theorem charsTernary (cond onTrue onFalse : Expr) : (ternary cond onTrue onFalse).chars =
    cond.operandChars ++ ' ' :: '?' :: ' ' ::
      (onTrue.operandChars ++ ' ' :: ':' :: ' ' :: onFalse.operandChars) := by
  simp [chars, operandChars]

theorem charsTensor (items : List Expr) : (tensor items).chars = '(' :: (itemsChars items ++ ')' :: []) := by
  simp [chars, itemsChars]

theorem charsTuple (items : List Expr) : (tuple items).chars = '[' :: (itemsChars items ++ ']' :: []) := by
  simp [chars, itemsChars]

end Expr
end Printed

theorem wordOther {c d : Char} (word : wordChar c = true) (other : wordChar d = false) : c ≠ d := by
  rintro rfl
  exact Bool.false_ne_true (other.symm.trans word)

theorem wordSingle {c : Char} (word : wordChar c = true) : outer c ∧ closesGroup c = false := by
  have bracket := wordOther word (d := '(') rfl
  have square := wordOther word (d := '[') rfl
  have closing := wordOther word (d := ')') rfl
  have squareClosing := wordOther word (d := ']') rfl
  have quote := wordOther word (d := '"') rfl
  simp [outer, opensGroup, closesGroup, bracket, square, closing, squareClosing, quote]

theorem wordsBalanced {cs : List Char} (words : ∀ c ∈ cs, wordChar c = true) : Balanced cs :=
  balancedSingles (fun c member => (wordSingle (words c member)).1)
    fun c member => (wordSingle (words c member)).2

theorem wordsOutside {cs : List Char} (words : ∀ c ∈ cs, wordChar c = true) :
    Outside (fun c => wordChar c = true) cs :=
  (outsideSingles fun c member => (wordSingle (words c member)).1).mpr words

theorem wordSource {name : String} (word : isWord name = true) : ∃ first others,
    name.toList = first :: others ∧ first.isDigit = false ∧
      ∀ c ∈ name.toList, wordChar c = true := by
  unfold isWord at word
  split at word
  · contradiction
  · rename_i first others same
    rw [same]
    simpa using word

theorem wordLetters {name : String} (word : isWord name = true) : ∀ c ∈ name.toList, wordChar c = true := by
  obtain ⟨_, _, _, _, letters⟩ := wordSource word
  exact letters

theorem digitWord {c : Char} (digit : c.isDigit = true) : wordChar c = true := by
  simp [wordChar, Char.isAlphanum, digit]

theorem digitsWord (n : Nat) : ∀ c ∈ Nat.toDigits 10 n, wordChar c = true :=
  fun _ member => digitWord (Json.allDigits member)

def atomChar (c : Char) : Bool := wordChar c || c == '-'

theorem atomSingle {c : Char} (atom : atomChar c = true) : outer c ∧ closesGroup c = false := by
  simp only [atomChar, Bool.or_eq_true, beq_iff_eq] at atom
  rcases atom with word | rfl
  · exact wordSingle word
  · exact ⟨rfl, rfl⟩

theorem signInjective {op op' : BinaryOp} (same : op.sign.toList = op'.sign.toList) : op = op' := by
  revert same
  cases op <;> cases op' <;> decide

namespace Expr

theorem intAtoms (value : Int64) : ∀ c ∈ (int value).chars, atomChar c = true := by
  intro c member
  rw [charsInt, List.mem_append] at member
  rcases member with sign | digit
  · split at sign
    · cases List.mem_singleton.mp sign
      rfl
    · contradiction
  · simp [atomChar, digitsWord _ c digit]

theorem operandBalanced {e : Expr} (balanced : Balanced e.chars) : Balanced e.operandChars := by
  cases operation : e.isOperation with
  | true =>
    rw [operandOfOperation operation]
    exact .group rfl rfl balanced .nil
  | false => rwa [operandOfOther operation]

theorem signBalanced (op : BinaryOp) : Balanced op.sign.toList := by
  apply balancedSingles <;> cases op <;> simp [BinaryOp.sign, outer, opensGroup, closesGroup]

end Expr

mutual

theorem Expr.charsBalanced : (e : Expr) → e.Every Expr.wellSpelled → Balanced e.chars
  | .id name, every => by
    exact wordsBalanced (wordLetters (Expr.everySelf every))
  | .int value, _ => balancedSingles (fun c member => (atomSingle (Expr.intAtoms value c member)).1)
      fun c member => (atomSingle (Expr.intAtoms value c member)).2
  | .bool value, _ => by
    cases value <;> exact wordsBalanced (wordLetters rfl)
  | .str value, every => by
    rw [Expr.charsStr]
    exact .quoted (by simpa [Expr.wellSpelled] using Expr.everySelf every) .nil
  | .nil, _ => by
    rw [Expr.charsNil]
    exact (wordsBalanced (wordLetters rfl)).append (.group rfl rfl .nil .nil)
  | .hole, _ => wordsBalanced (wordLetters rfl)
  | .call callee args, every => by
    obtain ⟨_, calleeEvery, argsEvery⟩ := Expr.everyCall.mp every
    have group : Balanced ('(' :: (itemsChars args ++ [')'])) :=
      .group rfl rfl (itemsBalanced args argsEvery) .nil
    cases named : callee.isName with
    | true =>
      cases callee with
      | id name =>
        rw [Expr.charsCall]
        exact (wordsBalanced (wordLetters (Expr.everySelf calleeEvery))).append group
      | _ => contradiction
    | false =>
      rw [Expr.charsComputed named]
      exact .group rfl rfl (callee.charsBalanced calleeEvery) group
  | .method receiver name args modifying, every => by
    obtain ⟨word, receiverEvery, argsEvery⟩ := Expr.everyMethod.mp every
    have group : Balanced ('(' :: (itemsChars args ++ [')'])) :=
      .group rfl rfl (itemsBalanced args argsEvery) .nil
    rw [Expr.charsMethod]
    refine (Expr.operandBalanced (receiver.charsBalanced receiverEvery)).append ?_
    exact .single (by cases modifying <;> rfl) (by cases modifying <;> rfl)
      ((wordsBalanced (wordLetters word)).append group)
  | .binary op left right, every => by
    obtain ⟨_, leftEvery, rightEvery⟩ := Expr.everyBinary.mp every
    rw [Expr.charsBinary]
    refine (Expr.operandBalanced (left.charsBalanced leftEvery)).append (.single rfl rfl ?_)
    exact (Expr.signBalanced op).append
      (.single rfl rfl (Expr.operandBalanced (right.charsBalanced rightEvery)))
  | .unary op operand, every => by
    obtain ⟨_, operandEvery⟩ := Expr.everyUnary.mp every
    rw [Expr.charsUnary]
    exact .single (by cases op <;> rfl) (by cases op <;> rfl)
      (Expr.operandBalanced (operand.charsBalanced operandEvery))
  | .ternary cond onTrue onFalse, every => by
    obtain ⟨_, condEvery, trueEvery, falseEvery⟩ := Expr.everyTernary.mp every
    rw [Expr.charsTernary]
    refine (Expr.operandBalanced (cond.charsBalanced condEvery)).append
      (.single rfl rfl (.single rfl rfl (.single rfl rfl ?_)))
    refine (Expr.operandBalanced (onTrue.charsBalanced trueEvery)).append
      (.single rfl rfl (.single rfl rfl (.single rfl rfl ?_)))
    exact Expr.operandBalanced (onFalse.charsBalanced falseEvery)
  | .tensor items, every => by
    rw [Expr.charsTensor]
    exact .group rfl rfl (itemsBalanced items (Expr.everyTensor.mp every).2) .nil
  | .tuple items, every => by
    rw [Expr.charsTuple]
    exact .group rfl rfl (itemsBalanced items (Expr.everyTuple.mp every).2) .nil

theorem itemsBalanced : (items : List Expr) → (∀ item ∈ items, item.Every Expr.wellSpelled) →
    Balanced (itemsChars items)
  | [], _ => .nil
  | [item], every => by
    rw [itemsCons]
    exact (item.charsBalanced (every item List.mem_cons_self)).append .nil
  | item :: next :: items, every => by
    rw [itemsCons]
    refine (item.charsBalanced (every item List.mem_cons_self)).append ?_
    exact .single rfl rfl (.single rfl rfl
      (itemsBalanced (next :: items) fun e member => every e (List.mem_cons_of_mem item member)))

end

def operandChar (c : Char) : Bool := atomChar c || c == '.' || c == '~'

def phraseChar (c : Char) : Bool := c != ',' && !closesGroup c

theorem wordAtom {c : Char} (word : wordChar c = true) : atomChar c = true := by
  simp [atomChar, word]

theorem atomOperand {c : Char} (atom : atomChar c = true) : operandChar c = true := by
  simp [operandChar, atom]

theorem operandPhrase {c : Char} (operand : operandChar c = true) : phraseChar c = true ∧ c ≠ ' ' := by
  simp only [operandChar, Bool.or_eq_true, beq_iff_eq] at operand
  rcases operand with (atom | rfl) | rfl
  · have comma : c ≠ ',' := by
      rintro rfl
      contradiction
    have space : c ≠ ' ' := by
      rintro rfl
      contradiction
    simp [phraseChar, comma, space, (atomSingle atom).2]
  · decide
  · decide

namespace Expr

theorem argsOutside {kind : Char → Prop} {args : List Expr} (every : ∀ arg ∈ args, arg.Every wellSpelled) :
    Outside kind ('(' :: (itemsChars args ++ ')' :: [])) :=
  (outsideGroup rfl rfl (itemsBalanced args every)).mpr outsideNone

theorem atomsOutside {e : Expr} (every : e.Every wellSpelled) (single : e.isOperation = false)
    (plain : e.isMethodCall = false) : Outside (fun c => atomChar c = true) e.chars := by
  have words {cs : List Char} (letters : ∀ c ∈ cs, wordChar c = true) :
      Outside (fun c => atomChar c = true) cs := outsideMono (fun _ => wordAtom) (wordsOutside letters)
  cases e with
  | id name => exact words (wordLetters (everySelf every))
  | int value =>
    exact (outsideSingles fun c member => (atomSingle (intAtoms value c member)).1).mpr (intAtoms value)
  | bool value => cases value <;> exact words (wordLetters rfl)
  | str value =>
    rw [charsStr, outsideQuoted (by simpa [wellSpelled] using everySelf every)]
    exact outsideNone
  | nil =>
    rw [charsNil, outsideAppend (wordsBalanced (wordLetters rfl))]
    exact ⟨words (wordLetters rfl), (argsOutside nofun : Outside _ ('(' :: (itemsChars [] ++ ')' :: [])))⟩
  | hole => exact words (wordLetters rfl)
  | call callee args =>
    obtain ⟨_, calleeEvery, argsEvery⟩ := everyCall.mp every
    cases named : callee.isName with
    | true =>
      cases callee with
      | id name =>
        have letters := wordLetters (everySelf calleeEvery)
        rw [charsCall, outsideAppend (wordsBalanced letters)]
        exact ⟨words letters, argsOutside argsEvery⟩
      | _ => contradiction
    | false =>
      rw [charsComputed named, outsideGroup rfl rfl (callee.charsBalanced calleeEvery)]
      exact argsOutside argsEvery
  | method receiver name args modifying => contradiction
  | binary op left right => contradiction
  | unary op operand => contradiction
  | ternary cond onTrue onFalse => contradiction
  | tensor items =>
    rw [charsTensor]
    exact argsOutside (everyTensor.mp every).2
  | tuple items =>
    rw [charsTuple, outsideGroup rfl rfl (itemsBalanced items (everyTuple.mp every).2)]
    exact outsideNone

theorem operandOutside : (e : Expr) → e.Every wellSpelled →
    Outside (fun c => operandChar c = true) e.operandChars
  | .method receiver name args modifying, every => by
    obtain ⟨word, receiverEvery, argsEvery⟩ := everyMethod.mp every
    have letters := wordLetters word
    rw [operandOfOther rfl, charsMethod,
      outsideAppend (operandBalanced (receiver.charsBalanced receiverEvery)),
      outsideCons (by cases modifying <;> rfl), outsideAppend (wordsBalanced letters)]
    refine ⟨receiver.operandOutside receiverEvery, by cases modifying <;> rfl, ?_, argsOutside argsEvery⟩
    exact outsideMono (fun _ word => atomOperand (wordAtom word)) (wordsOutside letters)
  | .binary op left right, every | .unary op operand, every | .ternary cond onTrue onFalse, every => by
    rw [operandOfOperation rfl, outsideGroup rfl rfl (charsBalanced _ every)]
    exact outsideNone
  | .id _, every | .int _, every | .bool _, every | .str _, every | .nil, every | .hole, every
  | .call _ _, every | .tensor _, every | .tuple _, every =>
    outsideMono (fun _ => atomOperand) (atomsOutside every rfl rfl)

end Expr

end CompilationUnit
