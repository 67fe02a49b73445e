import CompilationUnit.Emission.Function
import CompilationUnit.Proofs.Code.Spelling

/-! Printed code as lines of words. Words stand with single spaces between them, where what stands in
brackets or quotes belongs to the word it stands in, so a line determines its words. The words of an
expression are its operands and the signs between them. -/
namespace CompilationUnit

def spaced : List (List Char) → List Char
  | [] => []
  | [w] => w
  | w :: ws => w ++ ' ' :: spaced ws

def unbrokenChar (c : Char) : Bool := !c.isWhitespace && c != '\x7d'

structure Unbroken (w : List Char) : Prop where
  balanced : Balanced w
  outside : Outside (fun c => unbrokenChar c = true) w

structure Line where
  words : List (List Char)
  mark : Char

def Line.chars (l : Line) : List Char := spaced l.words ++ [l.mark]

structure Line.Clear (l : Line) : Prop where
  some : l.words ≠ []
  unbroken : ∀ w ∈ l.words, Unbroken w
  marked : l.mark ∈ [';', '\x7b']

namespace Expr

def words : Expr → List (List Char)
  | .binary op left right => [left.operandChars, op.sign.toList, right.operandChars]
  | .ternary cond onTrue onFalse =>
    [cond.operandChars, ['?'], onTrue.operandChars, [':'], onFalse.operandChars]
  | e => [e.chars]

end Expr

theorem spacedCons (w : List Char) {ws : List (List Char)} (more : ws ≠ []) :
    spaced (w :: ws) = w ++ ' ' :: spaced ws := by
  cases ws with
  | nil => contradiction
  | cons v ws => rfl

theorem spacedAppend {ws vs : List (List Char)} (some : ws ≠ []) (more : vs ≠ []) :
    spaced (ws ++ vs) = spaced ws ++ ' ' :: spaced vs := by
  induction ws with
  | nil => contradiction
  | cons w ws ih =>
    cases ws with
    | nil => exact spacedCons w more
    | cons v ws =>
      rw [List.cons_append, spacedCons w (by simp), ih (by simp), spacedCons w (by simp)]
      simp

theorem spacedBalanced {ws : List (List Char)} (unbroken : ∀ w ∈ ws, Unbroken w) :
    Balanced (spaced ws) := by
  induction ws with
  | nil => exact .nil
  | cons w ws ih =>
    have first := (unbroken w List.mem_cons_self).balanced
    have later := ih fun v member => unbroken v (List.mem_cons_of_mem w member)
    cases ws with
    | nil => exact first
    | cons v ws => exact first.append (.single rfl rfl later)

theorem unbrokenLine {c : Char} (plain : unbrokenChar c = true) : c ≠ '\n' ∧ c ≠ '\x7d' := by
  constructor <;> rintro rfl <;> contradiction

theorem spacedLine {ws : List (List Char)} (unbroken : ∀ w ∈ ws, Unbroken w) :
    Outside (fun c => c ≠ '\n' ∧ c ≠ '\x7d') (spaced ws) := by
  induction ws with
  | nil => exact outsideNone
  | cons w ws ih =>
    have first := unbroken w List.mem_cons_self
    have line := outsideMono (fun c => unbrokenLine) first.outside
    have later := ih fun v member => unbroken v (List.mem_cons_of_mem w member)
    cases ws with
    | nil => exact line
    | cons v ws =>
      exact (outsideAppend first.balanced).mpr ⟨line, (outsideCons rfl).mpr ⟨by decide, later⟩⟩

theorem spacedInjective {ws vs : List (List Char)} (unbroken : ∀ w ∈ ws, Unbroken w)
    (unbroken' : ∀ v ∈ vs, Unbroken v) (some : ws ≠ []) (some' : vs ≠ [])
    (same : spaced ws = spaced vs) : ws = vs := by
  induction ws generalizing vs with
  | nil => contradiction
  | cons w ws ih =>
    obtain ⟨v, vs, rfl⟩ := List.exists_cons_of_ne_nil some'
    have first := unbroken w List.mem_cons_self
    have first' := unbroken' v List.mem_cons_self
    have space : ¬ unbrokenChar ' ' = true := by decide
    by_cases last : ws = [] <;> by_cases last' : vs = []
    · subst last last'
      exact congrArg (fun w => [w]) same
    · subst last
      rw [spacedCons v last'] at same
      exact absurd same (outsideNowhere first'.balanced rfl first.outside space)
    · subst last'
      rw [spacedCons w last] at same
      exact absurd same.symm (outsideNowhere first.balanced rfl first'.outside space)
    · rw [spacedCons w last, spacedCons v last'] at same
      obtain ⟨rfl, _, later⟩ := outsideFirst first.balanced first'.balanced rfl rfl space space same
        first.outside first'.outside
      rw [ih (fun u member => unbroken u (List.mem_cons_of_mem w member))
        (fun u member => unbroken' u (List.mem_cons_of_mem w member)) last last' later]

namespace Line.Clear

variable {l l' : Line}

theorem markSingle (clear : l.Clear) :
    outer l.mark ∧ closesGroup l.mark = false ∧ l.mark ≠ '\n' ∧ l.mark ≠ '\x7d' := by
  have marked := clear.marked
  simp only [List.mem_cons, List.not_mem_nil, or_false] at marked
  rcases marked with same | same <;> rw [same] <;> decide

theorem balanced (clear : l.Clear) : Balanced l.chars :=
  (spacedBalanced clear.unbroken).append (.single clear.markSingle.1 clear.markSingle.2.1 .nil)

theorem outside (clear : l.Clear) : Outside (fun c => c ≠ '\n' ∧ c ≠ '\x7d') l.chars :=
  (outsideAppend (spacedBalanced clear.unbroken)).mpr ⟨spacedLine clear.unbroken,
    (outsideCons clear.markSingle.1).mpr ⟨clear.markSingle.2.2, outsideNone⟩⟩

theorem begins (clear : l.Clear) : ∃ c cs, l.chars = c :: cs ∧ c ≠ '\x7d' := by
  cases chars : l.chars with
  | nil => simp [Line.chars] at chars
  | cons c cs =>
    refine ⟨c, cs, rfl, ?_⟩
    rintro rfl
    have outside := clear.outside
    rw [chars] at outside
    exact ((outsideCons rfl).mp outside).1.2 rfl

theorem split {rest rest' : List Char} (clear : l.Clear) (clear' : l'.Clear)
    (same : l.chars ++ '\n' :: rest = l'.chars ++ '\n' :: rest') : l = l' ∧ rest = rest' := by
  obtain ⟨texts, _, rests⟩ := outsideFirst clear.balanced clear'.balanced rfl rfl (by simp) (by simp) same
    clear.outside clear'.outside
  obtain ⟨words, marks⟩ := List.append_inj' texts rfl
  have wordsSame := spacedInjective clear.unbroken clear'.unbroken clear.some clear'.some words
  obtain ⟨ws, m⟩ := l
  obtain ⟨ws', m'⟩ := l'
  cases wordsSame
  cases List.singleton_inj.mp marks
  exact ⟨rfl, rests⟩

end Line.Clear

theorem unbrokenEmpty : Unbroken [] := ⟨.nil, outsideNone⟩

theorem unbrokenSingles {w : List Char} (singles : ∀ c ∈ w, outer c ∧ closesGroup c = false)
    (plain : ∀ c ∈ w, unbrokenChar c = true) : Unbroken w :=
  ⟨balancedSingles (fun c member => (singles c member).1) fun c member => (singles c member).2,
    (outsideSingles fun c member => (singles c member).1).mpr plain⟩

def bracketed (cs : List Char) : List Char := '(' :: (cs ++ [')'])

theorem unbrokenBracketed {cs : List Char} (balanced : Balanced cs) : Unbroken (bracketed cs) :=
  ⟨.group rfl rfl balanced .nil, (outsideGroup rfl rfl balanced).mpr outsideNone⟩

theorem bracketedInjective {cs cs' : List Char} (same : bracketed cs = bracketed cs') : cs = cs' :=
  (List.append_inj' (List.cons.inj same).2 rfl).1

theorem wordUnbroken {c : Char} (word : wordChar c = true) : unbrokenChar c = true := by
  have space := wordOther word (d := ' ') rfl
  have tab := wordOther word (d := '\t') rfl
  have carriage := wordOther word (d := '\r') rfl
  have newline := wordOther word (d := '\n') rfl
  have brace := wordOther word (d := '\x7d') rfl
  simp [unbrokenChar, Char.isWhitespace, space, tab, carriage, newline, brace]

theorem lettersUnbroken {w : List Char} (letters : ∀ c ∈ w, wordChar c = true) : Unbroken w :=
  unbrokenSingles (fun c member => wordSingle (letters c member))
    fun c member => wordUnbroken (letters c member)

mutual

theorem ValueType.unbroken : (type : ValueType) → Unbroken type.text.toList
  | .int | .cell | .slice | .builder | .cont | .tuple | .hole => lettersUnbroken (wordLetters rfl)
  | .unit => unbrokenBracketed .nil
  | .tensor items => by
    simpa [ValueType.text, bracketed] using unbrokenBracketed (typesBalanced "" .nil items)

theorem typesBalanced (separator : String) (separates : Balanced separator.toList) :
    (types : List ValueType) → Balanced (typesText separator types).toList
  | [] => .nil
  | type :: types => by
    have later : Balanced (typesText ", " types).toList :=
      typesBalanced ", " (.single rfl rfl (.single rfl rfl .nil)) types
    simpa [typesText] using separates.append (type.unbroken.balanced.append later)

end

theorem declarationUnbroken (type : ValueType) : Unbroken type.declarationText.toList := by
  cases type with
  | hole => exact lettersUnbroken (wordLetters rfl)
  | _ => exact ValueType.unbroken _

theorem declarationNotReturn (type : ValueType) : type.declarationText ≠ "return" := by
  cases type with
  | tensor items =>
    intro same
    have chars := congrArg String.toList same
    simp [ValueType.declarationText, ValueType.text] at chars
  | _ => decide

def signChar (c : Char) : Bool :=
  ['+', '-', '*', '/', '%', '=', '!', '<', '>', '&', '|', '^', '?', ':'].contains c

def isSign (w : List Char) : Bool := w.all signChar

/- The sign of an assignment is the sign of no operator, unless the operator is a strict comparison. -/
def assignsWord (w : List Char) : Bool :=
  isSign w && w.getLast? == some '=' && !(["==", "!=", "<=", ">="].contains (String.ofList w))

theorem signSingle {c : Char} (sign : signChar c = true) :
    (outer c ∧ closesGroup c = false) ∧ unbrokenChar c = true := by
  simp only [signChar, List.contains_iff_mem, List.mem_cons, List.not_mem_nil, or_false] at sign
  rcases sign with rfl | rfl | rfl | rfl | rfl | rfl | rfl | rfl | rfl | rfl | rfl | rfl | rfl | rfl <;>
    decide

theorem signUnbroken {w : List Char} (sign : isSign w = true) : Unbroken w := by
  have signs : ∀ c ∈ w, signChar c = true := List.all_eq_true.mp sign
  exact unbrokenSingles (fun c member => (signSingle (signs c member)).1)
    fun c member => (signSingle (signs c member)).2

theorem notSign {w : List Char} {c : Char} (member : c ∈ w) (plain : signChar c = false) :
    isSign w = false := by
  rw [isSign, List.all_eq_false]
  exact ⟨c, member, by simp [plain]⟩

theorem wordNotSign {c : Char} (word : wordChar c = true) : signChar c = false := by
  rw [← Bool.not_eq_true, signChar, List.contains_iff_mem]
  intro member
  simp only [List.mem_cons, List.not_mem_nil, or_false] at member
  rcases member with rfl | rfl | rfl | rfl | rfl | rfl | rfl | rfl | rfl | rfl | rfl | rfl | rfl | rfl <;>
    contradiction

/-- Operands with signs between them; none of the signs makes an assignment. -/
inductive Phrase : List (List Char) → Prop
  | operand {w : List Char} (unbroken : Unbroken w) (unsigned : isSign w = false) : Phrase [w]
  | sign {w v : List Char} {ws : List (List Char)} (unbroken : Unbroken w) (unsigned : isSign w = false)
      (signed : isSign v = true) (compares : assignsWord v = false) (later : Phrase ws) :
      Phrase (w :: v :: ws)

def leads (ws : List (List Char)) : Bool := (ws.tail.head?).any fun w => !isSign w

namespace Phrase

variable {ws vs : List (List Char)} {w v : List Char}

theorem some (phrase : Phrase ws) : ws ≠ [] := by
  cases phrase <;> simp

theorem unbroken (phrase : Phrase ws) : ∀ w ∈ ws, Unbroken w := by
  induction phrase with
  | operand unbroken _ => simpa using unbroken
  | sign unbroken _ signed _ _ ih =>
    simp only [List.forall_mem_cons]
    exact ⟨unbroken, signUnbroken signed, ih⟩

theorem compares (phrase : Phrase ws) : ∀ w ∈ ws, assignsWord w = false := by
  have operand {w : List Char} (unsigned : isSign w = false) : assignsWord w = false := by
    simp [assignsWord, unsigned]
  induction phrase with
  | operand _ unsigned => simpa using operand unsigned
  | sign _ unsigned _ compares _ ih =>
    simp only [List.forall_mem_cons]
    exact ⟨operand unsigned, compares, ih⟩

theorem leadsNot (phrase : Phrase ws) : leads ws = false := by
  cases phrase with
  | operand _ _ => rfl
  | sign _ _ signed _ _ => simp [leads, signed]

theorem leadsNotBefore (phrase : Phrase ws) (signed : isSign v = true) :
    leads (ws ++ v :: vs) = false := by
  cases phrase with
  | operand _ _ => simp [leads, signed]
  | sign _ _ first _ _ => simp [leads, first]

theorem leadsBehind (phrase : Phrase ws) : leads (w :: (ws ++ vs)) = true := by
  cases phrase <;> simp_all [leads]

theorem unassigned (phrase : Phrase ws) (assigns : assignsWord v = true) (before : List (List Char)) :
    ws ≠ before ++ v :: vs := by
  rintro rfl
  have compares := phrase.compares v (by simp)
  rw [assigns] at compares
  contradiction

theorem splitAssignment {ws' vs' : List (List Char)} {v' : List Char} (phrase : Phrase ws)
    (phrase' : Phrase ws') (assigns : assignsWord v = true) (assigns' : assignsWord v' = true)
    (same : ws ++ v :: vs = ws' ++ v' :: vs') : ws = ws' ∧ v = v' ∧ vs = vs' :=
  splitFirst (p := (assignsWord · = false)) phrase.compares phrase'.compares (by simp [assigns])
    (by simp [assigns']) same

end Phrase

namespace Expr

variable {e : Expr}

theorem spacedWords (e : Expr) : spaced e.words = e.chars := by
  cases e <;> simp [words, spaced, charsBinary, charsTernary]

theorem wordsSome (e : Expr) : e.words ≠ [] := by
  cases e <;> simp [words]

theorem operatorSign (op : BinaryOp) :
    isSign op.sign.toList = true ∧ assignsWord op.sign.toList = false := by
  cases op <;> decide

theorem operandUnbroken (spelled : e.Every wellSpelled) : Unbroken e.operandChars := by
  refine ⟨operandBalanced (e.charsBalanced spelled),
    outsideMono (fun c char => ?_) (operandOutside e spelled)⟩
  simp only [operandChar, atomChar, Bool.or_eq_true, beq_iff_eq] at char
  rcases char with ((word | rfl) | rfl) | rfl
  · exact wordUnbroken word
  · rfl
  · rfl
  · rfl

theorem closedNotSign (cs : List Char) {c : Char} (plain : signChar c = false) :
    isSign (cs ++ [c]) = false :=
  notSign (List.mem_append_right cs List.mem_cons_self) plain

theorem operandNotSign (spelled : e.Every wellSpelled) : isSign e.operandChars = false := by
  cases e with
  | id name =>
    obtain ⟨c, cs, same, _, letters⟩ := wordSource (everySelf spelled)
    have member : c ∈ name.toList := by simp [same]
    exact notSign member (wordNotSign (letters c member))
  | int value =>
    rw [operandOfOther rfl, charsInt]
    cases digits : Nat.toDigits 10 value.toInt.natAbs with
    | nil => exact absurd digits Nat.toDigits_ne_nil
    | cons c cs =>
      have digit : c ∈ Nat.toDigits 10 value.toInt.natAbs := by simp [digits]
      exact notSign (List.mem_append_right _ List.mem_cons_self) (wordNotSign (digitsWord _ c digit))
  | bool value => cases value <;> decide
  | str value =>
    rw [operandOfOther rfl, charsStr]
    exact notSign List.mem_cons_self rfl
  | nil => decide
  | hole => decide
  | call callee args =>
    rw [operandOfOther rfl, chars, text, String.toList_append]
    exact closedNotSign _ rfl
  | method receiver name args modifying =>
    rw [operandOfOther rfl, chars, text, String.toList_append]
    exact closedNotSign _ rfl
  | binary op left right | unary op operand | ternary cond onTrue onFalse =>
    rw [operandOfOperation rfl]
    exact notSign List.mem_cons_self rfl
  | tensor items =>
    rw [operandOfOther rfl, charsTensor]
    exact notSign List.mem_cons_self rfl
  | tuple items =>
    rw [operandOfOther rfl, charsTuple]
    exact notSign List.mem_cons_self rfl

theorem wordsPhrase (spelled : e.Every wellSpelled) : Phrase e.words := by
  have operand {o : Expr} (spelled : o.Every wellSpelled) := operandNotSign spelled
  cases e with
  | binary op left right =>
    obtain ⟨_, leftSpelled, rightSpelled⟩ := everyBinary.mp spelled
    exact .sign (operandUnbroken leftSpelled) (operand leftSpelled) (operatorSign op).1 (operatorSign op).2
      (.operand (operandUnbroken rightSpelled) (operand rightSpelled))
  | unary op inner =>
    have innerSpelled := (everyUnary.mp spelled).2
    have unsigned : isSign (unary op inner).chars = false := by
      rw [charsUnary, isSign, List.all_cons, ← isSign, operand innerSpelled, Bool.and_false]
    have unbroken := operandUnbroken innerSpelled
    refine .operand ⟨(unary op inner).charsBalanced spelled, ?_⟩ unsigned
    rw [charsUnary, outsideCons (by cases op <;> rfl)]
    exact ⟨by cases op <;> rfl, unbroken.outside⟩
  | ternary cond onTrue onFalse =>
    obtain ⟨_, condSpelled, trueSpelled, falseSpelled⟩ := everyTernary.mp spelled
    exact .sign (operandUnbroken condSpelled) (operand condSpelled) rfl (by decide)
      (.sign (operandUnbroken trueSpelled) (operand trueSpelled) rfl (by decide)
        (.operand (operandUnbroken falseSpelled) (operand falseSpelled)))
  | id _ | int _ | bool _ | str _ | nil | hole | call _ _ | method _ _ _ _ | tensor _ | tuple _ =>
    change Phrase [chars _]
    rw [← operandOfOther rfl]
    exact .operand (operandUnbroken spelled) (operand spelled)

end Expr

end CompilationUnit
