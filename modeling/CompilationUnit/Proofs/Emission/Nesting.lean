import CompilationUnit.Proofs.Emission.Lines
import CompilationUnit.Proofs.Emission.Rows

/-! The printed body determines the statements. Behind the line with which a statement begins stand its
bodies, each up to the brace that closes it; a body that stands one level further in does not begin a
line with such a brace, whatever the indentation is. -/
namespace CompilationUnit

/-- Statements of the same form with bodies of such statements, printed alike in everything else. -/
inductive Stmt.Alike : Stmt → Stmt → Prop
  | block {body body' : List Stmt} (bodies : List.Forall₂ Alike body body') :
      Alike (.block body) (.block body')
  | declare {type type' : ValueType} {target target' : Expr} {value value' : Option Expr}
      (types : type.declarationText = type'.declarationText) (targets : target.text = target'.text)
      (values : value.map Expr.text = value'.map Expr.text) :
      Alike (.declare type target value) (.declare type' target' value')
  | assign {target target' value value' : Expr} {op : Option BinaryOp}
      (targets : target.text = target'.text) (values : value.text = value'.text) :
      Alike (.assign target op value) (.assign target' op value')
  | expr {value value' : Expr} (values : value.text = value'.text) : Alike (.expr value) (.expr value')
  | ret {value value' : Expr} (values : value.text = value'.text) : Alike (.ret value) (.ret value')
  | branch {cond cond' : Expr} {negated : Bool} {onTrue onTrue' : List Stmt}
      {onFalse onFalse' : Option (List Stmt)} (conds : cond.text = cond'.text)
      (bodies : List.Forall₂ Alike onTrue onTrue')
      (others : Option.Rel (List.Forall₂ Alike) onFalse onFalse') :
      Alike (.branch cond negated onTrue onFalse) (.branch cond' negated onTrue' onFalse')
  | repeatTimes {count count' : Expr} {body body' : List Stmt} (counts : count.text = count'.text)
      (bodies : List.Forall₂ Alike body body') : Alike (.repeatTimes count body) (.repeatTimes count' body')
  | whileTrue {cond cond' : Expr} {body body' : List Stmt} (conds : cond.text = cond'.text)
      (bodies : List.Forall₂ Alike body body') : Alike (.whileTrue cond body) (.whileTrue cond' body')
  | doUntil {body body' : List Stmt} {cond cond' : Expr} (bodies : List.Forall₂ Alike body body')
      (conds : cond.text = cond'.text) : Alike (.doUntil body cond) (.doUntil body' cond')
  | tryCatch {body body' handler handler' : List Stmt} {caught : List String}
      (bodies : List.Forall₂ Alike body body') (handlers : List.Forall₂ Alike handler handler') :
      Alike (.tryCatch body caught handler) (.tryCatch body' caught handler')

def rowChars (c : Context) (rows : List Row) : List Char := (String.join (rowTexts c rows)).toList

def indentChars (c : Context) (depth : Nat) : List Char := (c.deepen depth).indentation.toList

def bodyChars (c : Context) (depth : Nat) (ss : List Stmt) : List Char := rowChars c (rowsOf depth ss)

def closed (c : Context) (depth : Nat) (behind rest : List Char) : List Char :=
  indentChars c depth ++ '\x7d' :: (behind ++ '\n' :: rest)

namespace Line

def otherwise : Line := .opening [[], "else".toList]

def untilTrue (cond : Expr) : Line := .statement [[], "until".toList, bracketed cond.chars]

def catching (caught : List String) : Line :=
  .opening [[], "catch".toList, bracketed (commaSeparated caught).toList]

end Line

def otherwiseChars (c : Context) (depth : Nat) (rest : List Char) : Option (List Stmt) → List Char
  | none => closed c depth [] rest
  | some body => closed c depth Line.otherwise.chars (bodyChars c (depth + 1) body ++ closed c depth [] rest)

def Stmt.behindChars (c : Context) (depth : Nat) (rest : List Char) : Stmt → List Char
  | .block body => bodyChars c (depth + 1) body ++ closed c depth [] rest
  | .branch _ _ onTrue onFalse => bodyChars c (depth + 1) onTrue ++ otherwiseChars c depth rest onFalse
  | .repeatTimes _ body => bodyChars c (depth + 1) body ++ closed c depth [] rest
  | .whileTrue _ body => bodyChars c (depth + 1) body ++ closed c depth [] rest
  | .doUntil body cond => bodyChars c (depth + 1) body ++ closed c depth (Line.untilTrue cond).chars rest
  | .tryCatch body caught handler =>
    bodyChars c (depth + 1) body ++ closed c depth (Line.catching caught).chars
      (bodyChars c (depth + 1) handler ++ closed c depth [] rest)
  | _ => rest

def bodyText (c : Context) (ss : List Stmt) : String :=
  ((emitStmts ss : Emit String Unit).run ⟨"", c⟩).2.sink

variable {c : Context} {depth : Nat} {rest rest' : List Char}

@[simp]
theorem rowCharsNil : rowChars c [] = [] := rfl

@[simp]
theorem rowCharsCons (pieces : List Piece) (rows : List Row) : rowChars c (⟨depth, pieces⟩ :: rows) =
    indentChars c depth ++ ((printed pieces).toList ++ '\n' :: rowChars c rows) := by
  simp [rowChars, rowTexts, Row.texts, indentChars]

@[simp]
theorem rowCharsAppend (rows others : List Row) :
    rowChars c (rows ++ others) = rowChars c rows ++ rowChars c others := by
  simp [rowChars, rowTexts]

theorem indentDeeper : indentChars c (depth + 1) = indentChars c depth ++ c.indentText.toList := by
  rw [indentChars, indentChars, Context.indentation, Context.indentation]
  change (String.join (List.replicate (c.level + depth + 1) c.indentText)).toList = _
  rw [List.replicate_succ']
  simp [Context.deepen]

theorem otherwiseRowChars (onFalse : Option (List Stmt)) :
    rowChars c (otherwiseRows depth onFalse) ++ closed c depth [] rest =
      otherwiseChars c depth rest onFalse := by
  cases onFalse with
  | none => rfl
  | some body =>
    simp [otherwiseRows, otherwiseChars, closed, Line.otherwise, Line.openingChars, spaced, bodyChars]

theorem stmtChars (s : Stmt) : rowChars c (s.rows depth) ++ rest =
    indentChars c depth ++ (s.line.chars ++ '\n' :: s.behindChars c depth rest) := by
  cases s with
  | block body =>
    simp [Stmt.rows, Stmt.line, Stmt.behindChars, bodyChars, closed, Line.chars, Line.opening, spaced]
  | declare type target value =>
    cases value with
    | none =>
      rw [Stmt.line, Line.statementChars, initialWords, List.append_nil, spacedCons _ target.wordsSome,
        target.spacedWords]
      simp [Stmt.rows, Stmt.behindChars, Expr.chars]
    | some value =>
      rw [Stmt.line, Line.statementChars, initialWords, spacedCons _ (by simp),
        spacedAppend target.wordsSome (by simp), spacedCons _ value.wordsSome, target.spacedWords,
        value.spacedWords]
      simp [Stmt.rows, Stmt.behindChars, Expr.chars]
  | assign target op value =>
    rw [Stmt.line, Line.statementChars, spacedAppend target.wordsSome (by simp), spacedCons _ value.wordsSome,
      target.spacedWords, value.spacedWords]
    simp [Stmt.rows, Stmt.behindChars, Expr.chars]
  | expr value =>
    rw [Stmt.line, Line.statementChars, value.spacedWords]
    simp [Stmt.rows, Stmt.behindChars, Expr.chars]
  | ret value =>
    rw [Stmt.line, Line.statementChars, spacedCons _ value.wordsSome, value.spacedWords]
    simp [Stmt.rows, Stmt.behindChars, Expr.chars]
  | branch cond negated onTrue onFalse =>
    rw [Stmt.line, Line.headedChars, Stmt.behindChars, ← otherwiseRowChars]
    simp [Stmt.rows, Expr.chars, bodyChars, closed]
  | repeatTimes count body =>
    rw [Stmt.line, Line.headedChars]
    simp [Stmt.rows, Stmt.behindChars, Expr.chars, bodyChars, closed]
  | whileTrue cond body =>
    rw [Stmt.line, Line.headedChars]
    simp [Stmt.rows, Stmt.behindChars, Expr.chars, bodyChars, closed]
  | doUntil body cond =>
    rw [Stmt.line, Line.openingChars (by simp)]
    simp [Stmt.rows, Stmt.behindChars, Expr.chars, bodyChars, closed, spaced, Line.untilTrue,
      Line.statementChars, bracketed]
  | tryCatch body caught handler =>
    rw [Stmt.line, Line.openingChars (by simp)]
    simp [Stmt.rows, Stmt.behindChars, bodyChars, closed, spaced, Line.catching, Line.openingChars, bracketed]

theorem bodyCons (s : Stmt) (ss : List Stmt) : bodyChars c depth (s :: ss) ++ rest =
    indentChars c depth ++
      (s.line.chars ++ '\n' :: s.behindChars c depth (bodyChars c depth ss ++ rest)) := by
  rw [bodyChars, rowsOf, rowCharsAppend, List.append_assoc, stmtChars]
  rfl

inductive Ends (c : Context) : Nat → List Char → Prop
  | nothing {depth : Nat} : Ends c depth []
  | closed {depth : Nat} (behind rest : List Char) : Ends c (depth + 1) (closed c depth behind rest)

theorem endsApart {l : Line} {tail : List Char} (indented : c.indentText.toList.head? ≠ some '\x7d')
    (ends : Ends c depth rest) (clear : l.Clear) :
    rest ≠ indentChars c depth ++ (l.chars ++ '\n' :: tail) := by
  obtain ⟨first, others, begins, unclosed⟩ := clear.begins
  intro same
  cases ends with
  | nothing => simp at same
  | closed behind rest =>
    rw [closed, indentDeeper, List.append_assoc, List.append_cancel_left_eq, begins] at same
    cases text : c.indentText.toList with
    | nil =>
      rw [text] at same
      exact unclosed (List.cons.inj same).1.symm
    | cons d ds =>
      rw [text] at same indented
      exact indented (congrArg some (List.cons.inj same).1.symm)

theorem closedSplit {behind behind' : List Char}
    (same : closed c depth behind rest = closed c depth behind' rest') :
    behind ++ '\n' :: rest = behind' ++ '\n' :: rest' :=
  (List.cons.inj (List.append_cancel_left same)).2

theorem closedSame (same : closed c depth [] rest = closed c depth [] rest') : rest = rest' :=
  (List.cons.inj (closedSplit same)).2

theorem closedLine {l l' : Line} (clear : l.Clear) (clear' : l'.Clear)
    (same : closed c depth l.chars rest = closed c depth l'.chars rest') : l = l' ∧ rest = rest' :=
  clear.split clear' (closedSplit same)

theorem closedApart {l : Line} (some : ∃ ws, l.words = [] :: ws ∧ ws ≠ []) :
    closed c depth [] rest ≠ closed c depth l.chars rest' := by
  obtain ⟨ws, words, more⟩ := some
  intro same
  have split := closedSplit same
  rw [Line.chars, words, spacedCons [] more] at split
  simp at split

theorem otherwiseClear : Line.otherwise.Clear :=
  Line.openingClear (List.forall_mem_cons.mpr ⟨unbrokenEmpty,
    List.forall_mem_singleton.mpr (lettersUnbroken (wordLetters rfl))⟩)

theorem untilClear {cond : Expr} (spelled : cond.spelled = true) : (Line.untilTrue cond).Clear :=
  Line.statementClear (by simp) (List.forall_mem_cons.mpr ⟨unbrokenEmpty,
    List.forall_mem_cons.mpr ⟨lettersUnbroken (wordLetters rfl),
      List.forall_mem_singleton.mpr (Expr.unbrokenCond spelled)⟩⟩)

theorem namesCons (name next : String) (names : List String) :
    (commaSeparated (name :: next :: names)).toList =
      name.toList ++ ',' :: ' ' :: (commaSeparated (next :: names)).toList := by
  simp [commaSeparated]

theorem namesOne (name : String) : (commaSeparated [name]).toList = name.toList := by
  simp [commaSeparated]

theorem namesSome {name : String} (names : List String) (word : isWord name = true) :
    (commaSeparated (name :: names)).toList ≠ [] := by
  obtain ⟨c, cs, same, _, _⟩ := wordSource word
  simp [commaSeparated, same]

theorem namesBalanced : (names : List String) → names.all isWord = true →
    Balanced (commaSeparated names).toList
  | [], _ => .nil
  | [name], words => by
    rw [namesOne]
    exact wordsBalanced (wordLetters (by simpa using words))
  | name :: next :: names, words => by
    obtain ⟨word, others⟩ := Bool.and_eq_true_iff.mp words
    rw [namesCons]
    exact (wordsBalanced (wordLetters word)).append
      (.single rfl rfl (.single rfl rfl (namesBalanced (next :: names) others)))

theorem wordUnseparated {name : String} {rest : List Char} (word : isWord name = true) :
    name.toList ≠ rest ++ ',' :: ' ' :: rest' := by
  intro same
  have letter := wordLetters word ',' (by simp [same])
  contradiction

theorem namesInjective : (names names' : List String) → names.all isWord = true →
    names'.all isWord = true → (commaSeparated names).toList = (commaSeparated names').toList →
    names = names'
  | [], [], _, _, _ => rfl
  | [], _ :: names', _, words', same =>
    absurd same.symm (namesSome names' (Bool.and_eq_true_iff.mp words').1)
  | _ :: names, [], words, _, same => absurd same (namesSome names (Bool.and_eq_true_iff.mp words).1)
  | [name], [name'], _, _, same => by
    rw [namesOne, namesOne] at same
    rw [String.toList_inj.mp same]
  | [name], name' :: next' :: names', words, _, same => by
    rw [namesOne, namesCons] at same
    exact absurd same (wordUnseparated (Bool.and_eq_true_iff.mp words).1)
  | name :: next :: names, [name'], _, words', same => by
    rw [namesOne, namesCons] at same
    exact absurd same.symm (wordUnseparated (Bool.and_eq_true_iff.mp words').1)
  | name :: next :: names, name' :: next' :: names', words, words', same => by
    obtain ⟨word, others⟩ := Bool.and_eq_true_iff.mp words
    obtain ⟨word', others'⟩ := Bool.and_eq_true_iff.mp words'
    rw [namesCons, namesCons] at same
    obtain ⟨firsts, _, laters⟩ := splitFirst (p := (wordChar · = true)) (wordLetters word)
      (wordLetters word') (by decide) (by decide) same
    rw [String.toList_inj.mp firsts,
      namesInjective (next :: names) (next' :: names') others others' (List.cons.inj laters).2]

theorem catchingClear {caught : List String} (words : caught.all isWord = true) :
    (Line.catching caught).Clear :=
  Line.openingClear (List.forall_mem_cons.mpr ⟨unbrokenEmpty,
    List.forall_mem_cons.mpr ⟨lettersUnbroken (wordLetters rfl),
      List.forall_mem_singleton.mpr (unbrokenBracketed (namesBalanced caught words))⟩⟩)

theorem catchingSame {caught caught' : List String} (words : caught.all isWord = true)
    (words' : caught'.all isWord = true) (same : Line.catching caught = Line.catching caught') :
    caught = caught' := by
  have brackets : bracketed (commaSeparated caught).toList = bracketed (commaSeparated caught').toList := by
    simpa [Line.catching, Line.opening] using same
  exact namesInjective caught caught' words words' (bracketedInjective brackets)

theorem otherwiseEnds {onFalse : Option (List Stmt)} :
    Ends c (depth + 1) (otherwiseChars c depth rest onFalse) := by
  cases onFalse <;> exact .closed _ _

/- Recursion on the first of two bodies. What is printed behind either is carried along: where the first
body ends, the second one does, for no line of a body begins with a closing brace. -/
mutual

theorem Stmt.alikeOf {c : Context} (indented : c.indentText.toList.head? ≠ some '\x7d') (depth : Nat) :
    (s t : Stmt) → s.readable hasOwnSign = true → t.readable hasOwnSign = true → s.line = t.line →
    (rest rest' : List Char) → s.behindChars c depth rest = t.behindChars c depth rest' →
    s.Alike t ∧ rest = rest'
  | .block body, t, readable, readable', line, rest, rest', same => by
    obtain ⟨body', rfl⟩ := Stmt.blockLine line
    obtain ⟨bodies, rests⟩ := bodyAlike indented (depth + 1) body body' readable readable' _ _
      (.closed [] rest) (.closed [] rest') same
    exact ⟨.block bodies, closedSame rests⟩
  | .declare type target value, t, readable, readable', line, rest, rest', same => by
    obtain ⟨type', target', value', rfl, types, targets, values⟩ :=
      Stmt.declareLine readable readable' line
    exact ⟨.declare types targets values, same⟩
  | .assign target op value, t, readable, readable', line, rest, rest', same => by
    obtain ⟨target', value', rfl, targets, values⟩ := Stmt.assignLine readable readable' line
    exact ⟨.assign targets values, same⟩
  | .expr value, t, readable, readable', line, rest, rest', same => by
    obtain ⟨value', rfl, values⟩ := Stmt.exprLine readable readable' line
    exact ⟨.expr values, same⟩
  | .ret value, t, readable, readable', line, rest, rest', same => by
    obtain ⟨value', rfl, values⟩ := Stmt.retLine readable readable' line
    exact ⟨.ret values, same⟩
  | .branch cond negated onTrue onFalse, t, readable, readable', line, rest, rest', same => by
    obtain ⟨cond', onTrue', onFalse', rfl, conds⟩ := Stmt.branchLine line
    simp only [Stmt.readable, Bool.and_eq_true] at readable readable'
    obtain ⟨bodies, later⟩ := bodyAlike indented (depth + 1) onTrue onTrue' readable.1.2 readable'.1.2 _ _
      otherwiseEnds otherwiseEnds same
    obtain ⟨others, rests⟩ := otherwiseAlike indented depth onFalse onFalse' readable.2 readable'.2 _ _
      later
    exact ⟨.branch conds bodies others, rests⟩
  | .repeatTimes count body, t, readable, readable', line, rest, rest', same => by
    obtain ⟨count', body', rfl, counts⟩ := Stmt.repeatLine line
    simp only [Stmt.readable, Bool.and_eq_true] at readable readable'
    obtain ⟨bodies, rests⟩ := bodyAlike indented (depth + 1) body body' readable.2 readable'.2 _ _
      (.closed [] rest) (.closed [] rest') same
    exact ⟨.repeatTimes counts bodies, closedSame rests⟩
  | .whileTrue cond body, t, readable, readable', line, rest, rest', same => by
    obtain ⟨cond', body', rfl, conds⟩ := Stmt.whileLine line
    simp only [Stmt.readable, Bool.and_eq_true] at readable readable'
    obtain ⟨bodies, rests⟩ := bodyAlike indented (depth + 1) body body' readable.2 readable'.2 _ _
      (.closed [] rest) (.closed [] rest') same
    exact ⟨.whileTrue conds bodies, closedSame rests⟩
  | .doUntil body cond, t, readable, readable', line, rest, rest', same => by
    obtain ⟨body', cond', rfl⟩ := Stmt.untilLine line
    simp only [Stmt.readable, Bool.and_eq_true] at readable readable'
    obtain ⟨bodies, later⟩ := bodyAlike indented (depth + 1) body body' readable.1 readable'.1 _ _
      (.closed _ rest) (.closed _ rest') same
    obtain ⟨closings, rests⟩ := closedLine (untilClear readable.2) (untilClear readable'.2) later
    have conds := bracketedText (by simpa [Line.untilTrue, Line.statement] using closings)
    exact ⟨.doUntil bodies conds, rests⟩
  | .tryCatch body caught handler, t, readable, readable', line, rest, rest', same => by
    obtain ⟨body', caught', handler', rfl⟩ := Stmt.tryLine line
    simp only [Stmt.readable, Bool.and_eq_true] at readable readable'
    obtain ⟨⟨bodyReadable, words⟩, handlerReadable⟩ := readable
    obtain ⟨⟨bodyReadable', words'⟩, handlerReadable'⟩ := readable'
    obtain ⟨bodies, later⟩ := bodyAlike indented (depth + 1) body body' bodyReadable bodyReadable' _ _
      (.closed _ _) (.closed _ _) same
    obtain ⟨closings, behind⟩ := closedLine (catchingClear words) (catchingClear words') later
    obtain ⟨handlers, rests⟩ := bodyAlike indented (depth + 1) handler handler' handlerReadable
      handlerReadable' _ _ (.closed [] rest) (.closed [] rest') behind
    cases catchingSame words words' closings
    exact ⟨.tryCatch bodies handlers, closedSame rests⟩

theorem bodyAlike {c : Context} (indented : c.indentText.toList.head? ≠ some '\x7d') (depth : Nat) :
    (ss tt : List Stmt) → readable hasOwnSign ss = true → readable hasOwnSign tt = true →
    (rest rest' : List Char) → Ends c depth rest → Ends c depth rest' →
    bodyChars c depth ss ++ rest = bodyChars c depth tt ++ rest' →
    List.Forall₂ Stmt.Alike ss tt ∧ rest = rest'
  | [], [], _, _, _, _, _, _, same => ⟨.nil, same⟩
  | [], t :: tt, _, readable', rest, rest', ends, _, same => by
    rw [bodyCons] at same
    exact absurd same (endsApart indented ends (Stmt.lineClear (Bool.and_eq_true_iff.mp readable').1))
  | s :: ss, [], readable, _, rest, rest', _, ends', same => by
    rw [bodyCons] at same
    exact absurd same.symm (endsApart indented ends' (Stmt.lineClear (Bool.and_eq_true_iff.mp readable).1))
  | s :: ss, t :: tt, readable, readable', rest, rest', ends, ends', same => by
    obtain ⟨sReadable, ssReadable⟩ := Bool.and_eq_true_iff.mp readable
    obtain ⟨tReadable, ttReadable⟩ := Bool.and_eq_true_iff.mp readable'
    rw [bodyCons, bodyCons, List.append_cancel_left_eq] at same
    obtain ⟨lines, behind⟩ := (Stmt.lineClear sReadable).split (Stmt.lineClear tReadable) same
    obtain ⟨alike, later⟩ := s.alikeOf indented depth t sReadable tReadable lines _ _ behind
    obtain ⟨others, rests⟩ := bodyAlike indented depth ss tt ssReadable ttReadable rest rest' ends ends'
      later
    exact ⟨.cons alike others, rests⟩

theorem otherwiseAlike {c : Context} (indented : c.indentText.toList.head? ≠ some '\x7d') (depth : Nat) :
    (onFalse onFalse' : Option (List Stmt)) → readableOtherwise hasOwnSign onFalse = true →
    readableOtherwise hasOwnSign onFalse' = true → (rest rest' : List Char) →
    otherwiseChars c depth rest onFalse = otherwiseChars c depth rest' onFalse' →
    Option.Rel (List.Forall₂ Stmt.Alike) onFalse onFalse' ∧ rest = rest'
  | none, none, _, _, _, _, same => ⟨.none, closedSame same⟩
  | none, some body, _, _, _, _, same => absurd same (closedApart ⟨_, rfl, by simp⟩)
  | some body, none, _, _, _, _, same => absurd same.symm (closedApart ⟨_, rfl, by simp⟩)
  | some body, some body', readable, readable', rest, rest', same => by
    obtain ⟨_, later⟩ := closedLine otherwiseClear otherwiseClear same
    obtain ⟨bodies, rests⟩ := bodyAlike indented (depth + 1) body body' readable readable' _ _
      (.closed [] rest) (.closed [] rest') later
    exact ⟨.some bodies, closedSame rests⟩

end

theorem styleIndents (style : IndentStyle) : style.text.toList.head? ≠ some '\x7d' := by
  cases style with
  | spaces count => cases count <;> simp [IndentStyle.text, List.replicate_succ]
  | tabs => decide

theorem writtenBody (ss : List Stmt) : (bodyText c ss).toList = bodyChars c 0 ss := by
  have writes : (emitStmts ss : Emit String Unit).run ⟨"", c⟩ = _ :=
    Emit.writesString (stmtsWrite c 0 ss) ""
  rw [bodyText, writes, String.empty_append]
  rfl

/-- Two bodies that are printed alike at the same level are of the same statements, nested in the same
way, if no assignment is made by `<` or `>`. -/
theorem bodiesPrintedAlike {c : Context} (indented : c.indentText.toList.head? ≠ some '\x7d')
    {ss tt : List Stmt} (sReadable : readable hasOwnSign ss = true)
    (tReadable : readable hasOwnSign tt = true) (same : bodyText c ss = bodyText c tt) :
    List.Forall₂ Stmt.Alike ss tt := by
  have texts := congrArg String.toList same
  rw [writtenBody, writtenBody] at texts
  exact (bodyAlike indented 0 ss tt sReadable tReadable [] [] .nothing .nothing (by simpa using texts)).1

theorem unitTypesPrintedAlike :
    (Context.default false).indentText.toList.head? ≠ some '\x7d' ∧
    bodyText (.default false)
        [.declare .unit (.id "x") none, .doUntil [.ret (.int (-5))] (.bool true)] =
      bodyText (.default false)
        [.declare (.tensor []) (.id "x") none, .doUntil [.ret (.unary .neg (.int 5))] (.bool true)] ∧
    List.Forall₂ Stmt.Alike
      [.declare .unit (.id "x") none, .doUntil [.ret (.int (-5))] (.bool true)]
      [.declare (.tensor []) (.id "x") none, .doUntil [.ret (.unary .neg (.int 5))] (.bool true)] := by
  have indented : (Context.default false).indentText.toList.head? ≠ some '\x7d' := styleIndents (.spaces 4)
  have same : bodyText (.default false)
        [.declare .unit (.id "x") none, .doUntil [.ret (.int (-5))] (.bool true)] =
      bodyText (.default false)
        [.declare (.tensor []) (.id "x") none, .doUntil [.ret (.unary .neg (.int 5))] (.bool true)] := by
    decide
  exact ⟨indented, same, bodiesPrintedAlike indented (by decide) (by decide) same⟩

/- An assignment by `<` is printed as the statement of a comparison by `<=`. -/
theorem strictAssignmentMisread :
    readable (fun _ => true) [.assign (.id "x") (some .lt) (.id "y")] = true ∧
    readable (fun _ => true) [.expr (.binary .le (.id "x") (.id "y"))] = true ∧
    bodyText (.default false) [.assign (.id "x") (some .lt) (.id "y")] =
      bodyText (.default false) [.expr (.binary .le (.id "x") (.id "y"))] ∧
    ¬ List.Forall₂ Stmt.Alike [.assign (.id "x") (some .lt) (.id "y")]
      [.expr (.binary .le (.id "x") (.id "y"))] := by
  refine ⟨by decide, by decide, by decide, ?_⟩
  intro alike
  cases alike with
  | cons first _ => cases first

end CompilationUnit
