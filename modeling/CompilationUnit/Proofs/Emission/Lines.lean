import CompilationUnit.Proofs.Code.Words

/-! The lines with which printed statements begin. The mark at the end of such a line, the word behind
its first word and the sign of an assignment in it tell what statement it begins. -/
namespace CompilationUnit

def Expr.spelled (e : Expr) : Bool := e.all.all Expr.wellSpelled

/- The assignments by `<` and `>` have the signs of the operators `<=` and `>=`. -/
def hasOwnSign : Option BinaryOp → Bool
  | some .lt => false
  | some .gt => false
  | _ => true

mutual

/-- Names are words, strings hold no quotes, and assignments are made by operators of one kind only. -/
def Stmt.readable (assigns : Option BinaryOp → Bool) : Stmt → Bool
  | .block body => readable assigns body
  | .declare _ target value => target.spelled && value.all Expr.spelled
  | .assign target op value => target.spelled && assigns op && value.spelled
  | .expr value => value.spelled
  | .ret value => value.spelled
  | .branch cond _ onTrue onFalse =>
    cond.spelled && readable assigns onTrue && readableOtherwise assigns onFalse
  | .repeatTimes count body => count.spelled && readable assigns body
  | .whileTrue cond body => cond.spelled && readable assigns body
  | .doUntil body cond => readable assigns body && cond.spelled
  | .tryCatch body caught handler => readable assigns body && caught.all isWord && readable assigns handler

def readable (assigns : Option BinaryOp → Bool) : List Stmt → Bool
  | [] => true
  | s :: ss => s.readable assigns && readable assigns ss

def readableOtherwise (assigns : Option BinaryOp → Bool) : Option (List Stmt) → Bool
  | none => true
  | some body => readable assigns body

end

def initialWords : Option Expr → List (List Char)
  | none => []
  | some value => ['='] :: value.words

namespace Line

def statement (words : List (List Char)) : Line := ⟨words, ';'⟩

def opening (words : List (List Char)) : Line := ⟨words ++ [[]], '\x7b'⟩

end Line

def Stmt.line : Stmt → Line
  | .block _ => .opening []
  | .declare type target value =>
    .statement (type.declarationText.toList :: (target.words ++ initialWords value))
  | .assign target op value => .statement (target.words ++ (assignmentSign op).toList :: value.words)
  | .expr value => .statement value.words
  | .ret value => .statement ("return".toList :: value.words)
  | .branch cond negated _ _ => .opening [(branchWord negated).toList, bracketed cond.chars]
  | .repeatTimes count _ => .opening ["repeat".toList, bracketed count.chars]
  | .whileTrue cond _ => .opening ["while".toList, bracketed cond.chars]
  | .doUntil _ _ => .opening ["do".toList]
  | .tryCatch _ _ _ => .opening ["try".toList]

inductive LineKind where
  | opens | leads | assigns | states
  deriving DecidableEq

def Line.kind (l : Line) : LineKind :=
  if l.mark = '\x7b' then .opens
  else if leads l.words then .leads
  else if l.words.any assignsWord then .assigns
  else .states

def Stmt.kind : Stmt → LineKind
  | .declare _ _ _ => .leads
  | .assign _ _ _ => .assigns
  | .expr _ => .states
  | .ret _ => .leads
  | _ => .opens

namespace Expr

variable {e : Expr}

theorem spelledIff : e.spelled = true ↔ e.Every wellSpelled := List.all_eq_true

theorem phrase (spelled : e.spelled = true) : Phrase e.words := wordsPhrase (spelledIff.mp spelled)

theorem unbrokenCond (spelled : e.spelled = true) : Unbroken (bracketed e.chars) :=
  unbrokenBracketed (e.charsBalanced (spelledIff.mp spelled))

end Expr

theorem bracketedText {e f : Expr} (same : bracketed e.chars = bracketed f.chars) : e.text = f.text :=
  String.toList_inj.mp (bracketedInjective same)

theorem wordsText {e f : Expr} (same : e.words = f.words) : e.text = f.text := by
  apply String.toList_inj.mp
  rw [← Expr.chars, ← Expr.chars, ← e.spacedWords, same, f.spacedWords]

namespace Line

theorem statementChars (words : List (List Char)) :
    (statement words).chars = spaced words ++ [';'] := rfl

theorem openingChars {words : List (List Char)} (some : words ≠ []) :
    (opening words).chars = spaced words ++ [' ', '\x7b'] := by
  rw [chars, opening, spacedAppend some (by simp)]
  simp [spaced]

theorem headedChars (word : String) (subject : Expr) :
    (opening [word.toList, bracketed subject.chars]).chars =
      word.toList ++ ' ' :: '(' :: (subject.chars ++ [')', ' ', '\x7b']) := by
  rw [openingChars (by simp)]
  simp [spaced, bracketed]

theorem statementClear {ws : List (List Char)} (some : ws ≠ []) (unbroken : ∀ w ∈ ws, Unbroken w) :
    (statement ws).Clear := ⟨some, unbroken, by simp [statement]⟩

theorem openingClear {ws : List (List Char)} (unbroken : ∀ w ∈ ws, Unbroken w) : (opening ws).Clear :=
  ⟨by simp [opening],
    List.forall_mem_append.mpr ⟨unbroken, List.forall_mem_singleton.mpr unbrokenEmpty⟩, by simp [opening]⟩

end Line

theorem assignmentWord {op : Option BinaryOp} (own : hasOwnSign op = true) :
    isSign (assignmentSign op).toList = true ∧ assignsWord (assignmentSign op).toList = true := by
  revert own
  cases op with
  | none => decide
  | some op => cases op <;> decide

theorem assignmentInjective {op op' : Option BinaryOp}
    (same : (assignmentSign op).toList = (assignmentSign op').toList) : op = op' := by
  cases op with
  | none =>
    cases op' with
    | none => rfl
    | some op' =>
      revert same
      cases op' <;> decide
  | some op =>
    cases op' with
    | none =>
      revert same
      cases op <;> decide
    | some op' =>
      rw [assignmentSign, assignmentSign, String.toList_append, String.toList_append] at same
      exact congrArg some (signInjective (List.append_inj' same rfl).1)

theorem initialUnbroken {value : Option Expr} (spelled : value.all Expr.spelled = true) :
    ∀ w ∈ initialWords value, Unbroken w := by
  cases value with
  | none => nofun
  | some value =>
    exact List.forall_mem_cons.mpr ⟨signUnbroken rfl, (Expr.phrase spelled).unbroken⟩

namespace Stmt

variable {s t : Stmt}

theorem lineClear (readable : s.readable hasOwnSign = true) : s.line.Clear := by
  have headed {word : List Char} {subject : Expr} (letters : ∀ c ∈ word, wordChar c = true)
      (spelled : subject.spelled = true) : (Line.opening [word, bracketed subject.chars]).Clear :=
    Line.openingClear (List.forall_mem_cons.mpr ⟨lettersUnbroken letters,
      List.forall_mem_singleton.mpr (Expr.unbrokenCond spelled)⟩)
  cases s with
  | block body => exact Line.openingClear nofun
  | declare type target value =>
    obtain ⟨targetSpelled, valueSpelled⟩ := Bool.and_eq_true_iff.mp readable
    exact Line.statementClear (by simp) (List.forall_mem_cons.mpr ⟨declarationUnbroken type,
      List.forall_mem_append.mpr ⟨(Expr.phrase targetSpelled).unbroken, initialUnbroken valueSpelled⟩⟩)
  | assign target op value =>
    simp only [Stmt.readable, Bool.and_eq_true] at readable
    obtain ⟨⟨targetSpelled, own⟩, valueSpelled⟩ := readable
    have behind := List.forall_mem_cons.mpr
      ⟨signUnbroken (assignmentWord own).1, (Expr.phrase valueSpelled).unbroken⟩
    exact Line.statementClear (by simp)
      (List.forall_mem_append.mpr ⟨(Expr.phrase targetSpelled).unbroken, behind⟩)
  | expr value => exact Line.statementClear (Expr.phrase readable).some (Expr.phrase readable).unbroken
  | ret value =>
    exact Line.statementClear (by simp)
      (List.forall_mem_cons.mpr ⟨lettersUnbroken (wordLetters rfl), (Expr.phrase readable).unbroken⟩)
  | branch cond negated onTrue onFalse =>
    simp only [Stmt.readable, Bool.and_eq_true] at readable
    exact headed (by cases negated <;> exact wordLetters rfl) readable.1.1
  | repeatTimes count body => exact headed (wordLetters rfl) (Bool.and_eq_true_iff.mp readable).1
  | whileTrue cond body => exact headed (wordLetters rfl) (Bool.and_eq_true_iff.mp readable).1
  | doUntil body cond =>
    exact Line.openingClear (List.forall_mem_singleton.mpr (lettersUnbroken (wordLetters rfl)))
  | tryCatch body caught handler =>
    exact Line.openingClear (List.forall_mem_singleton.mpr (lettersUnbroken (wordLetters rfl)))

theorem kindOfStatement {ws : List (List Char)} : (Line.statement ws).kind =
    if leads ws then .leads else if ws.any assignsWord then .assigns else .states := rfl

theorem kindOfLine (readable : s.readable hasOwnSign = true) : s.line.kind = s.kind := by
  cases s with
  | block body => rfl
  | declare type target value =>
    have phrase := Expr.phrase (Bool.and_eq_true_iff.mp readable).1
    exact if_pos phrase.leadsBehind
  | assign target op value =>
    simp only [Stmt.readable, Bool.and_eq_true] at readable
    obtain ⟨⟨targetSpelled, own⟩, _⟩ := readable
    obtain ⟨signed, assigns⟩ := assignmentWord own
    rw [line, kindOfStatement, (Expr.phrase targetSpelled).leadsNotBefore signed]
    simp [assigns, kind]
  | expr value =>
    have phrase := Expr.phrase readable
    have compares : value.words.any assignsWord = false := by simpa using phrase.compares
    rw [line, kindOfStatement, phrase.leadsNot, compares]
    rfl
  | ret value =>
    have follows : leads ("return".toList :: (value.words ++ [])) = true :=
      (Expr.phrase readable).leadsBehind
    rw [List.append_nil] at follows
    exact if_pos follows
  | branch cond negated onTrue onFalse => rfl
  | repeatTimes count body => rfl
  | whileTrue cond body => rfl
  | doUntil body cond => rfl
  | tryCatch body caught handler => rfl

theorem sameKind (sReadable : s.readable hasOwnSign = true) (tReadable : t.readable hasOwnSign = true)
    (same : s.line = t.line) : s.kind = t.kind := by
  rw [← kindOfLine sReadable, same, kindOfLine tReadable]

theorem blockLine {body : List Stmt} (same : (block body).line = t.line) : ∃ body', t = .block body' := by
  cases t with
  | block body' => exact ⟨body', rfl⟩
  | _ => simp [line, Line.opening, Line.statement] at same

theorem branchLine {cond : Expr} {negated : Bool} {onTrue : List Stmt} {onFalse : Option (List Stmt)}
    (same : (branch cond negated onTrue onFalse).line = t.line) :
    ∃ cond' onTrue' onFalse', t = .branch cond' negated onTrue' onFalse' ∧ cond.text = cond'.text := by
  cases t with
  | branch cond' negated' onTrue' onFalse' =>
    simp only [line, Line.opening, Line.mk.injEq, List.append_left_inj, List.cons.injEq] at same
    obtain ⟨⟨words, conds, _⟩, _⟩ := same
    have negations : negated = negated' := by
      revert words
      cases negated <;> cases negated' <;> decide
    subst negations
    exact ⟨cond', onTrue', onFalse', rfl, bracketedText conds⟩
  | _ => cases negated <;> simp [line, Line.opening, Line.statement, branchWord] at same

theorem repeatLine {count : Expr} {body : List Stmt} (same : (repeatTimes count body).line = t.line) :
    ∃ count' body', t = .repeatTimes count' body' ∧ count.text = count'.text := by
  cases t with
  | repeatTimes count' body' =>
    exact ⟨count', body', rfl, bracketedText (by simpa [line, Line.opening] using same)⟩
  | branch _ negated _ _ => cases negated <;> simp [line, Line.opening, branchWord] at same
  | _ => simp [line, Line.opening, Line.statement] at same

theorem whileLine {cond : Expr} {body : List Stmt} (same : (whileTrue cond body).line = t.line) :
    ∃ cond' body', t = .whileTrue cond' body' ∧ cond.text = cond'.text := by
  cases t with
  | whileTrue cond' body' =>
    exact ⟨cond', body', rfl, bracketedText (by simpa [line, Line.opening] using same)⟩
  | branch _ negated _ _ => cases negated <;> simp [line, Line.opening, branchWord] at same
  | _ => simp [line, Line.opening, Line.statement] at same

theorem untilLine {body : List Stmt} {cond : Expr} (same : (doUntil body cond).line = t.line) :
    ∃ body' cond', t = .doUntil body' cond' := by
  cases t with
  | doUntil body' cond' => exact ⟨body', cond', rfl⟩
  | _ => simp [line, Line.opening, Line.statement] at same

theorem tryLine {body handler : List Stmt} {caught : List String}
    (same : (tryCatch body caught handler).line = t.line) :
    ∃ body' caught' handler', t = .tryCatch body' caught' handler' := by
  cases t with
  | tryCatch body' caught' handler' => exact ⟨body', caught', handler', rfl⟩
  | _ => simp [line, Line.opening, Line.statement] at same

theorem initialSplit {target target' : Expr} {value value' : Option Expr}
    (spelled : target.spelled = true) (spelled' : target'.spelled = true)
    (same : target.words ++ initialWords value = target'.words ++ initialWords value') :
    target.text = target'.text ∧ value.map Expr.text = value'.map Expr.text := by
  have phrase := Expr.phrase spelled
  have phrase' := Expr.phrase spelled'
  have assigns : assignsWord ['='] = true := by decide
  cases value with
  | none =>
    rw [initialWords, List.append_nil] at same
    cases value' with
    | none => exact ⟨wordsText (by simpa [initialWords] using same), rfl⟩
    | some value' => exact absurd same (phrase.unassigned assigns _)
  | some value =>
    cases value' with
    | none =>
      rw [initialWords.eq_1, List.append_nil] at same
      exact absurd same.symm (phrase'.unassigned assigns _)
    | some value' =>
      obtain ⟨targets, _, values⟩ := phrase.splitAssignment phrase' assigns assigns same
      exact ⟨wordsText targets, congrArg some (wordsText values)⟩

theorem declareLine {type : ValueType} {target : Expr} {value : Option Expr}
    (readable : (declare type target value).readable hasOwnSign = true)
    (readable' : t.readable hasOwnSign = true)
    (same : (declare type target value).line = t.line) : ∃ type' target' value',
      t = .declare type' target' value' ∧ type.declarationText = type'.declarationText ∧
        target.text = target'.text ∧ value.map Expr.text = value'.map Expr.text := by
  have kinds := sameKind readable readable' same
  have spelled := (Bool.and_eq_true_iff.mp readable).1
  cases t with
  | declare type' target' value' =>
    have spelled' := (Bool.and_eq_true_iff.mp readable').1
    obtain ⟨types, behind⟩ := List.cons.inj (congrArg Line.words same)
    exact ⟨type', target', value', rfl, String.toList_inj.mp types, initialSplit spelled spelled' behind⟩
  | ret value' =>
    obtain ⟨types, _⟩ := List.cons.inj (congrArg Line.words same)
    exact absurd (String.toList_inj.mp types) (declarationNotReturn type)
  | _ => simp [kind] at kinds

theorem assignLine {target value : Expr} {op : Option BinaryOp}
    (readable : (assign target op value).readable hasOwnSign = true)
    (readable' : t.readable hasOwnSign = true)
    (same : (assign target op value).line = t.line) : ∃ target' value',
      t = .assign target' op value' ∧ target.text = target'.text ∧ value.text = value'.text := by
  have kinds := sameKind readable readable' same
  cases t with
  | assign target' op' value' =>
    simp only [Stmt.readable, Bool.and_eq_true] at readable readable'
    obtain ⟨⟨spelled, own⟩, _⟩ := readable
    obtain ⟨⟨spelled', own'⟩, _⟩ := readable'
    obtain ⟨targets, signs, values⟩ := (Expr.phrase spelled).splitAssignment (Expr.phrase spelled')
      (assignmentWord own).2 (assignmentWord own').2 (congrArg Line.words same)
    cases assignmentInjective signs
    exact ⟨target', value', rfl, wordsText targets, wordsText values⟩
  | _ => simp [kind] at kinds

theorem exprLine {value : Expr} (readable : (expr value).readable hasOwnSign = true)
    (readable' : t.readable hasOwnSign = true) (same : (expr value).line = t.line) :
    ∃ value', t = .expr value' ∧ value.text = value'.text := by
  have kinds := sameKind readable readable' same
  cases t with
  | expr value' => exact ⟨value', rfl, wordsText (congrArg Line.words same)⟩
  | _ => simp [kind] at kinds

theorem retLine {value : Expr} (readable : (ret value).readable hasOwnSign = true)
    (readable' : t.readable hasOwnSign = true) (same : (ret value).line = t.line) :
    ∃ value', t = .ret value' ∧ value.text = value'.text := by
  have kinds := sameKind readable readable' same
  cases t with
  | ret value' => exact ⟨value', rfl, wordsText (List.cons.inj (congrArg Line.words same)).2⟩
  | declare type' target' value' =>
    obtain ⟨types, _⟩ := List.cons.inj (congrArg Line.words same)
    exact absurd (String.toList_inj.mp types).symm (declarationNotReturn type')
  | _ => simp [kind] at kinds

end Stmt

end CompilationUnit
