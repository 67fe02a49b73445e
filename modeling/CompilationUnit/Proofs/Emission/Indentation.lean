import CompilationUnit.Code.Traversal
import CompilationUnit.Proofs.Code.Characters
import CompilationUnit.Proofs.Emission.Rows

/-! The indentation of a printed definition follows its braces. Where no name or string holds a brace, each
row stands as deep as there are braces open before it, one less if it begins by closing one. -/
namespace CompilationUnit

def unbraced (c : Char) : Bool := c != '\x7b' && c != '\x7d' && c != '\n'

def Expr.allOwnChars (kind : Char → Bool) (e : Expr) : Bool := e.all.all (Expr.ownChars kind)

def Visit.ownChars (kind : Char → Bool) : Visit → Bool
  | .enter (.tryCatch _ caught _) => caught.all (allChars kind)
  | .expr e => e.allOwnChars kind
  | _ => true

def ownCharsOf (kind : Char → Bool) (body : List Stmt) : Bool := (visitsOf body).all (Visit.ownChars kind)

def Definition.ownChars (kind : Char → Bool) (d : Definition) : Bool :=
  allChars kind d.name && (d.params.all fun p => allChars kind p.name) &&
    ownCharsOf kind d.body

def braces (cs : List Char) : Int := cs.count '\x7b' - cs.count '\x7d'

def closing (cs : List Char) : Int := if cs.head? = some '\x7d' then 1 else 0

def Row.content (row : Row) : List Char := (printed row.pieces).toList

def openBraces (rows : List Row) : Int := braces (rows.flatMap Row.content)

/- Rows whose braces lead from one depth to another, none broken into two lines. -/
inductive Nested : Nat → List Row → Nat → Prop
  | nil {depth : Nat} : Nested depth [] depth
  | cons {before middle after : Nat} {row : Row} {rows : List Row} (unbroken : '\n' ∉ row.content)
      (level : (row.depth : Int) + closing row.content = before)
      (next : (middle : Int) = before + braces row.content) (later : Nested middle rows after) :
      Nested before (row :: rows) after

section Braces

variable {cs ds : List Char}

@[simp]
theorem bracesNil : braces [] = 0 := rfl

@[simp]
theorem bracesAppend (cs ds : List Char) : braces (cs ++ ds) = braces cs + braces ds := by
  simp only [braces, List.count_append]
  omega

theorem unbracedOther {c : Char} (plain : unbraced c = true) : c ≠ '\x7b' ∧ c ≠ '\x7d' ∧ c ≠ '\n' := by
  simpa [unbraced, and_assoc] using plain

theorem codeUnbraced (c : Char) (code : codeChar c = true) : unbraced c = true := by
  have opens : c ≠ '\x7b' := kindOther code (by decide)
  have closes : c ≠ '\x7d' := kindOther code (by decide)
  have newline : c ≠ '\n' := kindOther code (by decide)
  simp [unbraced, opens, closes, newline]

theorem bracesUnbraced (plain : ∀ c ∈ cs, unbraced c = true) : braces cs = 0 := by
  have opens : '\x7b' ∉ cs := fun member => (unbracedOther (plain _ member)).1 rfl
  have closes : '\x7d' ∉ cs := fun member => (unbracedOther (plain _ member)).2.1 rfl
  rw [braces, List.count_eq_zero_of_not_mem opens, List.count_eq_zero_of_not_mem closes]
  rfl

theorem closingUnbraced (plain : ∀ c ∈ cs, unbraced c = true) (behind : closing ds = 0) :
    closing (cs ++ ds) = 0 := by
  cases cs with
  | nil => exact behind
  | cons c cs => simp [closing, (unbracedOther (plain c List.mem_cons_self)).2.1]

end Braces

namespace Nested

theorem append {before middle after : Nat} {rows others : List Row} (first : Nested before rows middle)
    (second : Nested middle others after) : Nested before (rows ++ others) after := by
  induction first with
  | nil => exact second
  | cons unbroken level next _ ih => exact .cons unbroken level next (ih second)

theorem row {depth : Nat} {pieces : List Piece} (text : String) (closes opens : Bool)
    (plain : allChars unbraced text = true)
    (same : printed pieces = (if closes then "\x7d" else "") ++ text ++ (if opens then "\x7b" else "")) :
    Nested (depth + closes.toNat) [⟨depth, pieces⟩] (depth + opens.toNat) := by
  have chars := allCharsIff.mp plain
  have content : (⟨depth, pieces⟩ : Row).content =
      (if closes then ['\x7d'] else []) ++ (text.toList ++ (if opens then ['\x7b'] else [])) := by
    rw [Row.content, same]
    cases closes <;> cases opens <;> simp
  have unbroken : '\n' ∉ text.toList := fun member => (unbracedOther (chars _ member)).2.2 rfl
  have behind : closing (text.toList ++ (if opens then ['\x7b'] else [])) = 0 :=
    closingUnbraced chars (by cases opens <;> rfl)
  have closer : braces (if closes then ['\x7d'] else []) = -closes.toNat := by cases closes <;> rfl
  have opener : braces (if opens then ['\x7b'] else []) = opens.toNat := by cases opens <;> rfl
  refine .cons ?_ ?_ ?_ .nil
  · rw [content]
    cases closes <;> cases opens <;> simp [unbroken]
  · rw [content]
    cases closes with
    | false => simp [behind]
    | true => rfl
  · rw [content, bracesAppend, bracesAppend, closer, opener, bracesUnbraced chars]
    push_cast
    omega

theorem opened {depth after : Nat} {pieces : List Piece} {rows others : List Row} (text : String)
    (plain : allChars unbraced text = true) (same : printed pieces = text ++ "\x7b")
    (body : Nested (depth + 1) rows (depth + 1)) (later : Nested (depth + 1) others after) :
    Nested depth (⟨depth, pieces⟩ :: (rows ++ others)) after :=
  (row text false true plain (by simp [same])).append (body.append later)

theorem reopened {depth after : Nat} {pieces : List Piece} {rows others : List Row} (text : String)
    (plain : allChars unbraced text = true) (same : printed pieces = "\x7d" ++ (text ++ "\x7b"))
    (body : Nested (depth + 1) rows (depth + 1)) (later : Nested (depth + 1) others after) :
    Nested (depth + 1) (⟨depth, pieces⟩ :: (rows ++ others)) after :=
  (row text true true plain (by simp [same, String.append_assoc])).append (body.append later)

theorem closed {depth : Nat} {pieces : List Piece} (text : String) (plain : allChars unbraced text = true)
    (same : printed pieces = "\x7d" ++ text) : Nested (depth + 1) [⟨depth, pieces⟩] depth :=
  row text true false plain (by simp [same])

theorem plain {depth : Nat} {pieces : List Piece} (plain : allChars unbraced (printed pieces) = true) :
    Nested depth [⟨depth, pieces⟩] depth :=
  row (printed pieces) false false plain (by simp)

end Nested

theorem declarationChars (type : ValueType) : allChars unbraced type.declarationText = true := by
  cases type with
  | hole => decide
  | _ => exact allCharsMono (fun c head => codeUnbraced c (headCode head)) (ValueType.textChars _)

theorem assignmentChars (op : Option BinaryOp) : allChars unbraced (assignmentSign op) = true := by
  cases op with
  | none => decide
  | some op => cases op <;> decide

theorem exprUnbraced {e : Expr} (plain : e.allOwnChars unbraced = true) :
    allChars unbraced e.text = true := e.textChars codeUnbraced (List.all_eq_true.mp plain)

theorem branchChars (negated : Bool) : allChars unbraced (branchWord negated) = true := by
  cases negated <;> decide

theorem caughtChars {caught : List String} (plain : caught.all (allChars unbraced) = true) :
    allChars unbraced (commaSeparated caught) = true :=
  commaSeparatedChars (fun c head => codeUnbraced c (headCode head)) (List.all_eq_true.mp plain)

theorem fixedChars : ∀ text ∈ [" ", ";", " = ", "return ", " (", ") ", "repeat (", "while (", "do ", "try ",
    " else ", " until (", ");", " catch ("], allChars unbraced text = true := by
  decide

theorem Stmt.ownParts {kind : Char → Bool} {s : Stmt} (all : s.visits.all (Visit.ownChars kind) = true) :
    match s with
    | .block body => ownCharsOf kind body = true
    | .declare _ target none => target.allOwnChars kind = true
    | .declare _ target (some value) | .assign target _ value =>
      target.allOwnChars kind = true ∧ value.allOwnChars kind = true
    | .expr value | .ret value => value.allOwnChars kind = true
    | .branch cond _ onTrue none => cond.allOwnChars kind = true ∧ ownCharsOf kind onTrue = true
    | .branch cond _ onTrue (some onFalse) =>
      cond.allOwnChars kind = true ∧ ownCharsOf kind onTrue = true ∧ ownCharsOf kind onFalse = true
    | .repeatTimes e body | .whileTrue e body => e.allOwnChars kind = true ∧ ownCharsOf kind body = true
    | .doUntil body cond => ownCharsOf kind body = true ∧ cond.allOwnChars kind = true
    | .tryCatch body caught handler =>
      caught.all (allChars kind) = true ∧ ownCharsOf kind body = true ∧ ownCharsOf kind handler = true := by
  unfold Stmt.visits at all
  split <;>
    simpa only [ownCharsOf, List.all_cons, List.all_append, List.all_nil, Visit.ownChars, Bool.and_true,
      Bool.true_and, Bool.and_eq_true] using all

mutual

theorem Stmt.nested (depth : Nat) (s : Stmt) (all : s.visits.all (Visit.ownChars unbraced) = true) :
    Nested depth (s.rows depth) depth := by
  have fixed := fixedChars
  simp only [List.forall_mem_cons] at fixed
  have parts := Stmt.ownParts all
  match s with
  | .block body =>
    exact .opened "" rfl rfl (rowsNested (depth + 1) body parts) (.closed "" rfl rfl)
  | .declare type target none =>
    exact .plain (by simp [declarationChars, fixed, exprUnbraced parts])
  | .declare type target (some value) =>
    exact .plain (by simp [declarationChars, fixed, exprUnbraced parts.1, exprUnbraced parts.2])
  | .assign target op value =>
    exact .plain (by simp [fixed, assignmentChars, exprUnbraced parts.1, exprUnbraced parts.2])
  | .expr value => exact .plain (by simp [fixed, exprUnbraced parts])
  | .ret value => exact .plain (by simp [fixed, exprUnbraced parts])
  | .branch cond negated onTrue none =>
    exact .opened (branchWord negated ++ " (" ++ cond.text ++ ") ")
      (by simp [fixed, branchChars, exprUnbraced parts.1]) (by simp [String.append_assoc])
      (rowsNested (depth + 1) onTrue parts.2) (.closed "" rfl rfl)
  | .branch cond negated onTrue (some onFalse) =>
    exact .opened (branchWord negated ++ " (" ++ cond.text ++ ") ")
      (by simp [fixed, branchChars, exprUnbraced parts.1]) (by simp [String.append_assoc])
      (rowsNested (depth + 1) onTrue parts.2.1)
      (.reopened " else " (by simp [fixed]) rfl (rowsNested (depth + 1) onFalse parts.2.2)
        (.closed "" rfl rfl))
  | .repeatTimes count body =>
    exact .opened ("repeat (" ++ count.text ++ ") ") (by simp [fixed, exprUnbraced parts.1])
      (by simp [String.append_assoc]) (rowsNested (depth + 1) body parts.2) (.closed "" rfl rfl)
  | .whileTrue cond body =>
    exact .opened ("while (" ++ cond.text ++ ") ") (by simp [fixed, exprUnbraced parts.1])
      (by simp [String.append_assoc]) (rowsNested (depth + 1) body parts.2) (.closed "" rfl rfl)
  | .doUntil body cond =>
    exact .opened "do " (by simp [fixed]) (by simp) (rowsNested (depth + 1) body parts.1)
      (.closed (" until (" ++ cond.text ++ ");") (by simp [fixed, exprUnbraced parts.2])
        (by simp [String.append_assoc]))
  | .tryCatch body caught handler =>
    have divided (text : String) : "\x7d catch (" ++ text = "\x7d" ++ (" catch (" ++ text) := by
      rw [← String.append_assoc]
      rfl
    exact .opened "try " (by simp [fixed]) rfl (rowsNested (depth + 1) body parts.2.1)
      (.reopened (" catch (" ++ commaSeparated caught ++ ") ") (by simp [fixed, caughtChars parts.1])
        (by simp [divided, String.append_assoc]) (rowsNested (depth + 1) handler parts.2.2)
        (.closed "" rfl rfl))

theorem rowsNested (depth : Nat) : (ss : List Stmt) → ownCharsOf unbraced ss = true →
    Nested depth (rowsOf depth ss) depth
  | [], _ => .nil
  | s :: ss, all => by
    rw [ownCharsOf, visitsOf, List.all_append, Bool.and_eq_true] at all
    exact (s.nested depth all.1).append (rowsNested depth ss all.2)

end

theorem signatureChars {d : Definition} (plain : d.ownChars unbraced = true) :
    allChars unbraced (d.signature ++ " ") = true := by
  simp only [Definition.ownChars, Bool.and_eq_true, List.all_eq_true] at plain
  have signature : allChars unbraced d.signature = true :=
    headTextChars (fun c head => codeUnbraced c (headCode head)) d.returnType d.attributes plain.1.1 plain.1.2
  have space : allChars unbraced " " = true := by decide
  simp [signature, space]

theorem Definition.nested {d : Definition} (plain : d.ownChars unbraced = true) : Nested 0 d.rows 0 := by
  have body : ownCharsOf unbraced d.body = true := by
    simp only [Definition.ownChars, Bool.and_eq_true] at plain
    exact plain.2
  exact .opened (d.signature ++ " ") (signatureChars plain) (by simp [String.append_assoc])
    (rowsNested 1 d.body body) (.closed "" rfl rfl)

namespace Nested

variable {before after : Nat} {rows : List Row}

theorem ends (nested : Nested before rows after) : (after : Int) = before + openBraces rows := by
  induction nested with
  | nil => simp [openBraces]
  | cons _ _ next _ ih =>
    simp only [openBraces, List.flatMap_cons, bracesAppend] at ih ⊢
    omega

theorem unbroken (nested : Nested before rows after) : ∀ row ∈ rows, '\n' ∉ row.content := by
  induction nested with
  | nil => exact nofun
  | cons unbroken _ _ _ ih => exact List.forall_mem_cons.mpr ⟨unbroken, ih⟩

theorem levelAt {earlier later : List Row} {row : Row}
    (nested : Nested before (earlier ++ row :: later) after) :
    (row.depth : Int) = before + openBraces earlier - closing row.content := by
  induction earlier generalizing before with
  | nil =>
    cases nested with
    | cons _ level _ _ =>
      simp only [openBraces, List.flatMap_nil, bracesNil]
      omega
  | cons first earlier ih =>
    cases nested with
    | cons _ _ next rest =>
      have level := ih rest
      simp only [openBraces, List.flatMap_cons, bracesAppend] at level ⊢
      omega

end Nested

def Row.indented (c : Context) (row : Row) : List Char :=
  (c.deepen row.depth).indentation.toList ++ row.content

section Lines

variable {c : Context}

theorem indentationChars {kind : Char → Bool} (all : allChars kind c.indentText = true) :
    allChars kind c.indentation = true := by
  have repeated (count : Nat) : allChars kind (String.join (List.replicate count c.indentText)) = true := by
    induction count with
    | zero => rfl
    | succ count ih => simp [List.replicate_succ, all, ih]
  exact repeated c.level

theorem styleUnbraced (style : IndentStyle) : allChars unbraced style.text = true := by
  cases style with
  | tabs => decide
  | spaces count =>
    refine allCharsIff.mpr fun c member => ?_
    rw [IndentStyle.text, String.toList_ofList] at member
    rw [List.eq_of_mem_replicate member]
    decide

theorem rowTextsJoined (c : Context) (rows : List Row) : String.join (rowTexts c rows) =
    String.join (rows.map fun row => (c.deepen row.depth).indentation ++ printed row.pieces ++ "\n") := by
  induction rows with
  | nil => rfl
  | cons row rows ih =>
    rw [rowTexts] at ih
    simp [rowTexts, Row.texts, ih, String.append_assoc]

theorem rowTextsLines (c : Context) (rows : List Row) :
    (String.join (rowTexts c rows)).toList = (rows.map (Row.indented c)).flatMap (· ++ ['\n']) := by
  simp [rowTexts, Row.texts, Row.indented, Row.content, List.flatMap_map, List.flatMap_assoc]

theorem splitLines {lines : List (List Char)} (unbroken : ∀ line ∈ lines, '\n' ∉ line) :
    (lines.flatMap (· ++ ['\n'])).splitOn '\n' = lines ++ [[]] := by
  induction lines with
  | nil => rfl
  | cons line lines ih =>
    rw [List.forall_mem_cons] at unbroken
    rw [List.flatMap_cons, List.append_assoc, List.singleton_append,
      List.splitOn_append_cons_of_beq _ _ (beq_self_eq_true _), List.splitOn_eq_singleton unbroken.1,
      ih unbroken.2]
    rfl

theorem linesBraces (lines : List (List Char)) :
    braces (lines.flatMap (· ++ ['\n'])) = braces lines.flatten := by
  have newline : braces ['\n'] = 0 := rfl
  induction lines with
  | nil => rfl
  | cons line lines ih =>
    rw [List.flatMap_cons, List.flatten_cons, bracesAppend, bracesAppend, bracesAppend, newline, ih]
    omega

variable (spaces : allChars unbraced c.indentText = true)
include spaces

theorem indentedUnbroken {row : Row} (unbroken : '\n' ∉ row.content) : '\n' ∉ row.indented c := by
  have indentation := allCharsIff.mp (indentationChars (c := c.deepen row.depth) spaces)
  intro member
  rcases List.mem_append.mp member with before | behind
  · exact (unbracedOther (indentation _ before)).2.2 rfl
  · exact unbroken behind

theorem indentedBraces (rows : List Row) : braces (rows.map (Row.indented c)).flatten = openBraces rows := by
  induction rows with
  | nil => rfl
  | cons row rows ih =>
    have indentation := allCharsIff.mp (indentationChars (c := c.deepen row.depth) spaces)
    simp only [openBraces, List.map_cons, List.flatten_cons, List.flatMap_cons, bracesAppend] at ih ⊢
    rw [ih, Row.indented, bracesAppend, bracesUnbraced indentation]
    omega

theorem linesFollow {rows : List Row} {after : Nat} (nested : Nested 0 rows after)
    {earlier later : List (List Char)} {line : List Char}
    (split : rows.map (Row.indented c) = earlier ++ line :: later) : ∃ depth rest,
      line = (c.deepen depth).indentation.toList ++ rest ∧
        (depth : Int) = braces earlier.flatten - closing rest := by
  obtain ⟨before, others, rfl, rfl, same⟩ := List.map_eq_append_iff.mp split
  obtain ⟨row, behind, rfl, rfl, rfl⟩ := List.map_eq_cons_iff.mp same
  have level := nested.levelAt
  refine ⟨row.depth, row.content, rfl, ?_⟩
  rw [indentedBraces spaces]
  omega

end Lines

namespace Definition

structure Indented (d : Definition) (c : Context) (text : String) : Prop where
  rows : text = String.join (d.rows.map fun row =>
    (c.deepen row.depth).indentation ++ printed row.pieces ++ "\n")
  unbroken : ∀ row ∈ d.rows, '\n' ∉ row.content
  follows : ∀ earlier row later, d.rows = earlier ++ row :: later →
    (row.depth : Int) = openBraces earlier - closing row.content
  balanced : openBraces d.rows = 0
  lines : allChars unbraced c.indentText = true → ∃ lines, text.toList.splitOn '\n' = lines ++ [[]] ∧
    (∀ earlier line later, lines = earlier ++ line :: later → ∃ depth rest,
      line = (c.deepen depth).indentation.toList ++ rest ∧
        (depth : Int) = braces earlier.flatten - closing rest) ∧
    braces text.toList = 0

theorem indentedByBraces {d : Definition} (plain : d.ownChars unbraced = true) (e : Entry)
    (annotatePlaceholders : Bool) (c : Context) : ∃ text,
      ({ e with body := .ordinary d } : Entry).emitText annotatePlaceholders c = (.ok (), ⟨text, c⟩) ∧
      d.Indented c text := by
  have nested := Definition.nested plain
  have written : (d.emit : Emit String Unit).run ⟨"", c⟩ =
      (.ok (), ⟨String.join (rowTexts c d.rows), c⟩) := by
    simpa using Emit.writesString (d.writes c) ""
  have balanced : openBraces d.rows = 0 := by
    have ends := nested.ends
    omega
  refine ⟨_, written, rowTextsJoined c d.rows, nested.unbroken, ?_, balanced,
    fun spaces => ⟨d.rows.map (Row.indented c), ?_, ?_, ?_⟩⟩
  · intro earlier row later same
    rw [same] at nested
    have level := nested.levelAt
    omega
  · rw [rowTextsLines]
    exact splitLines (List.forall_mem_map.mpr fun row member =>
      indentedUnbroken spaces (nested.unbroken row member))
  · exact fun _ _ _ split => linesFollow spaces nested split
  · rw [rowTextsLines, linesBraces, indentedBraces spaces, balanced]

def branchingLoop : Definition :=
  { attributes := [.impure]
    name := "loop"
    params := [⟨"n", .int⟩]
    returnType := .unit
    body := [.repeatTimes (.id "n")
      [.branch (.id "n") true [.block []] (some [.tryCatch [] ["_", "code"] [.ret (.str "done")]])]] }

theorem branchingLoopIndented :
    branchingLoop.ownChars unbraced = true ∧
    branchingLoop.rows.map Row.depth = [0, 1, 2, 3, 3, 2, 3, 3, 4, 3, 2, 1, 0] ∧
    ∃ text, (Entry.mk "loop" (.ordinary branchingLoop) none false .empty).emitText false
        ⟨2, IndentStyle.tabs.text, false, false⟩ =
        (.ok (), ⟨text, ⟨2, IndentStyle.tabs.text, false, false⟩⟩) ∧
      branchingLoop.Indented ⟨2, IndentStyle.tabs.text, false, false⟩ text ∧
      braces text.toList = 0 := by
  have plain : branchingLoop.ownChars unbraced = true := by decide
  obtain ⟨text, written, indented⟩ := indentedByBraces plain
    ⟨"loop", .placeholder, none, false, .empty⟩ false ⟨2, IndentStyle.tabs.text, false, false⟩
  obtain ⟨_, _, _, balanced⟩ := indented.lines (styleUnbraced .tabs)
  exact ⟨plain, rfl, text, written, indented, balanced⟩

end Definition

end CompilationUnit
