import CompilationUnit.Json.Quoted

/-! Strings as they are spelled: between the quotes a character stands as itself or as an escape. Every
spelling of a string is read as that string, up to right behind the closing quote, and the form that is
written is one of them. -/
namespace CompilationUnit.Json

inductive Escapes : List Char → List Char → Prop
  | nil : Escapes [] []
  | plain {c : Char} {cs body : List Char} (printable : ¬ c < ' ') (quote : c ≠ '"') (backslash : c ≠ '\\')
      (later : Escapes cs body) : Escapes (c :: cs) (c :: body)
  | short {e c : Char} {cs body : List Char} (escape : escaped? e = some c) (later : Escapes cs body) :
      Escapes (c :: cs) ('\\' :: e :: body)
  | unit {x y z t : Char} {n : Nat} {cs body : List Char} (unit : hexUnit? x y z t = some n)
      (single : isLeading n = false ∧ isTrailing n = false) (later : Escapes cs body) :
      Escapes (Char.ofNat n :: cs) ('\\' :: 'u' :: x :: y :: z :: t :: body)
  | pair {x y z t x' y' z' t' : Char} {n m : Nat} {cs body : List Char}
      (first : hexUnit? x y z t = some n) (leading : isLeading n = true)
      (second : hexUnit? x' y' z' t' = some m) (trailing : isTrailing m = true) (later : Escapes cs body) :
      Escapes (joinSurrogates n m :: cs)
        ('\\' :: 'u' :: x :: y :: z :: t :: '\\' :: 'u' :: x' :: y' :: z' :: t' :: body)

variable {c : Char} {cs body : List Char}

theorem scanPlain (printable : ¬ c < ' ') (quote : c ≠ '"') (backslash : c ≠ '\\') (rest : List Char) :
    scanQuoted (c :: rest) = (scanQuoted rest).push (.char c) := by
  rw [scanQuoted, if_neg printable] <;> grind

theorem scanShort {e : Char} (escape : escaped? e = some c) (rest : List Char) :
    scanQuoted ('\\' :: e :: rest) = (scanQuoted rest).push (.char c) := by
  have other : e ≠ 'u' := by
    rintro rfl
    contradiction
  rw [scanQuoted, if_neg other, escape]
  grind

theorem scanUnit {x y z t : Char} {n : Nat} (unit : hexUnit? x y z t = some n) (rest : List Char) :
    scanQuoted ('\\' :: 'u' :: x :: y :: z :: t :: rest) = (scanQuoted rest).push (.unit n) := by
  rw [scanQuoted, unit]

theorem assembleUnit {n : Nat} (single : isLeading n = false ∧ isTrailing n = false) (ps : List Piece) :
    assemble .closed (.unit n :: ps) = (assemble .closed ps).map (Char.ofNat n :: ·) := by
  obtain ⟨leading, trailing⟩ := single
  cases ps with
  | nil => simp [assemble, leading, trailing, QuoteEnd.fault?, Except.map]
  | cons p ps =>
    simp only [assemble, leading, trailing, Bool.false_eq_true, if_false]
    cases assemble .closed (p :: ps) <;> rfl

theorem trailingSecond {n : Nat} (leading : isLeading n = true) : isTrailing n = false := by
  simp only [isLeading, isTrailing, Bool.and_eq_true, decide_eq_true_eq, Bool.and_eq_false_imp] at *
  simp
  omega

theorem assemblePair {n m : Nat} (leading : isLeading n = true) (trailing : isTrailing m = true) (ps : List Piece) :
    assemble .closed (.unit n :: .unit m :: ps) = (assemble .closed ps).map (joinSurrogates n m :: ·) := by
  simp only [assemble, trailingSecond leading, leading, trailing, Bool.false_eq_true, if_false, if_true]
  cases assemble .closed ps <;> rfl

theorem scanEscapes (escapes : Escapes cs body) (rest : List Char) : ∃ pieces,
    scanQuoted (body ++ '"' :: rest) = ⟨pieces, .closed, rest⟩ ∧ assemble .closed pieces = .ok cs := by
  induction escapes with
  | nil => exact ⟨[], rfl, rfl⟩
  | @plain c _ _ printable quote backslash later ih =>
    obtain ⟨pieces, scan, whole⟩ := ih
    refine ⟨.char c :: pieces, ?_, ?_⟩
    · rw [List.cons_append, scanPlain printable quote backslash, scan]
      rfl
    · rw [assemble, whole]
      rfl
  | @short _ c _ _ escape later ih =>
    obtain ⟨pieces, scan, whole⟩ := ih
    refine ⟨.char c :: pieces, ?_, ?_⟩
    · simp only [List.cons_append]
      rw [scanShort escape, scan]
      rfl
    · rw [assemble, whole]
      rfl
  | @unit _ _ _ _ n _ _ unit single later ih =>
    obtain ⟨pieces, scan, whole⟩ := ih
    refine ⟨.unit n :: pieces, ?_, ?_⟩
    · simp only [List.cons_append]
      rw [scanUnit unit, scan]
      rfl
    · rw [assembleUnit single, whole]
      rfl
  | @pair _ _ _ _ _ _ _ _ n m _ _ first leading second trailing later ih =>
    obtain ⟨pieces, scan, whole⟩ := ih
    refine ⟨.unit n :: .unit m :: pieces, ?_, ?_⟩
    · simp only [List.cons_append]
      rw [scanUnit first, scanUnit second, scan]
      rfl
    · rw [assemblePair leading trailing, whole]
      rfl

def Quoted.ofString (s : String) : Quoted := ⟨.ok s, none⟩

theorem scanQuotedText {s : String} (escapes : Escapes s.toList body) (rest : List Char) :
    (scanQuoted (body ++ '"' :: rest)).quoted = .ofString s ∧ (scanQuoted (body ++ '"' :: rest)).rest = rest := by
  obtain ⟨pieces, scan, whole⟩ := scanEscapes escapes rest
  rw [scan]
  refine ⟨?_, rfl⟩
  unfold QuoteScan.quoted
  rw [whole]
  simp [Except.map, QuoteEnd.fault?, Quoted.ofString]

theorem controlUnit : ∀ n < 32, hexUnit? '0' '0' (hexDigit (n / 16)) (hexDigit (n % 16)) = some n := by
  decide

theorem controlSingle : ∀ n < 32, isLeading n = false ∧ isTrailing n = false := by
  decide

theorem escapedChar (later : Escapes cs body) : Escapes (c :: cs) (escapeChar c ++ body) := by
  unfold escapeChar
  split
  · exact .short rfl later
  · exact .short rfl later
  · exact .short rfl later
  · exact .short rfl later
  · exact .short rfl later
  · exact .short rfl later
  · exact .short rfl later
  · rename_i quote backslash _ _ _ _ _
    split
    · rename_i control
      have spelled := Escapes.unit (controlUnit c.toNat control) (controlSingle c.toNat control) later
      rwa [Char.ofNat_toNat] at spelled
    · rename_i printable
      exact .plain printable quote backslash later

theorem escapedChars (cs : List Char) : Escapes cs (cs.flatMap escapeChar) := by
  induction cs with
  | nil => exact .nil
  | cons c cs ih => exact escapedChar ih

end CompilationUnit.Json
