import CompilationUnit.Proofs.Json.Spacing

/-! Written values: the indented text of a value is one of the texts of its lexemes, with a new line and
its indentation between them where the writer breaks the text. -/
namespace CompilationUnit.Json

variable {cs : List Char} {lexemes : List Lexeme}

theorem spacedBlank {blanks : List Char} (blank : Blank blanks) (spaced : Spaced lexemes cs) :
    Spaced lexemes (blanks ++ cs) := by
  have both : ∀ {others}, Blank others → Blank (blanks ++ others) := fun other =>
    List.forall_mem_append.mpr ⟨blank, other⟩
  cases spaced with
  | nil other => exact .nil (both other)
  | cons other spelled spaced =>
    rw [← List.append_assoc]
    exact .cons (both other) spelled spaced

theorem spacedMark (text : String) (spaced : Spaced lexemes cs) :
    Spaced (.mark text :: lexemes) (text.toList ++ cs) :=
  .cons (List.forall_mem_nil _) (.mark text) spaced

theorem spacedQuote (s : String) (spaced : Spaced lexemes cs) :
    Spaced (.quoted s :: lexemes) ((quote s).toList ++ cs) := by
  have text : (quote s).toList = '"' :: (s.toList.flatMap escapeChar ++ ['"']) := by
    simp [quote, String.toList_append]
  rw [text]
  exact .cons (List.forall_mem_nil _) (.quoted (escapedChars s.toList)) spaced

theorem spacedNewline (level : Nat) (spaced : Spaced lexemes cs) :
    Spaced lexemes ((newline level).toList ++ cs) := by
  refine spacedBlank ?_ spaced
  simp [Blank, newline, String.toList_append, isBlank]

theorem spacedKey (key : String) (spaced : Spaced lexemes cs) :
    Spaced (.quoted key :: .mark ":" :: lexemes) ((quote key).toList ++ (": ".toList ++ cs)) := by
  have blank : Blank [' '] := by
    simp [Blank, isBlank]
  exact spacedQuote key (spacedMark ":" (spacedBlank blank spaced))

mutual

theorem indentedSpaced (v : Value) (level : Nat) {later : List Lexeme} {cs : List Char} (spaced : Spaced later cs) :
    Spaced (v.lexemes ++ later) ((v.indented level).toList ++ cs) := by
  match v with
  | .null => exact spacedMark _ spaced
  | .boolean b => exact spacedMark _ spaced
  | .integer i => exact spacedMark _ spaced
  | .string s => exact spacedQuote s spaced
  | .list [] =>
    have text : ((Value.list []).indented level).toList ++ cs = "[".toList ++ ("]".toList ++ cs) := by
      simp [Value.indented]
    exact text ▸ spacedMark "[" (spacedMark "]" spaced)
  | .list (item :: items) =>
    have closed := spacedNewline level (spacedMark "]" spaced)
    simp only [Value.indented, Value.lexemes, String.toList_append, List.append_assoc, List.cons_append]
    exact spacedMark _ (spacedNewline _ (indentedSpaced item _ (indentedItemsSpaced items _ closed)))
  | .object [] =>
    have text : ((Value.object []).indented level).toList ++ cs = "\x7b".toList ++ ("\x7d".toList ++ cs) := by
      simp [Value.indented]
    exact text ▸ spacedMark "\x7b" (spacedMark "\x7d" spaced)
  | .object ((key, value) :: members) =>
    have closed := spacedNewline level (spacedMark "\x7d" spaced)
    have first := indentedSpaced value (level + 1) (indentedMembersSpaced members (level + 1) closed)
    simp only [Value.indented, Value.lexemes, String.toList_append, List.append_assoc, List.cons_append]
    exact spacedMark _ (spacedNewline _ (spacedKey key first))

theorem indentedItemsSpaced (items : List Value) (level : Nat) {later : List Lexeme} {cs : List Char}
    (spaced : Spaced later cs) :
    Spaced (itemLexemes items ++ later) ((indentedItems level items).toList ++ cs) := by
  match items with
  | [] => exact spaced
  | item :: items =>
    have first := indentedSpaced item level (indentedItemsSpaced items level spaced)
    simp only [indentedItems, itemLexemes, String.toList_append, List.append_assoc, List.cons_append]
    exact spacedMark _ (spacedNewline level first)

theorem indentedMembersSpaced (members : List (String × Value)) (level : Nat) {later : List Lexeme}
    {cs : List Char} (spaced : Spaced later cs) :
    Spaced (memberLexemes members ++ later) ((indentedMembers level members).toList ++ cs) := by
  match members with
  | [] => exact spaced
  | (key, value) :: members =>
    have first := indentedSpaced value level (indentedMembersSpaced members level spaced)
    simp only [indentedMembers, memberLexemes, String.toList_append, List.append_assoc, List.cons_append]
    exact spacedMark _ (spacedNewline level (spacedKey key first))

end

theorem prettySpaced (v : Value) : Spaced v.lexemes v.pretty.toList := by
  have spaced := indentedSpaced v 0 (.nil (List.forall_mem_nil _))
  rwa [List.append_nil, List.append_nil] at spaced

end CompilationUnit.Json
