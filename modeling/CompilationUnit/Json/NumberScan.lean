import CompilationUnit.Json.Number

/-!
Scanning of numbers: where the written parts of a number end, and where its spelling goes wrong. A
scan never runs past its text, which is why cutting a text into tokens ends.
-/
namespace CompilationUnit.Json

structure NumberScan where
  value : Except Fault Number
  /-- The problem for a reader that skips the number; then nothing after it can be read. -/
  broken : Option Fault
  rest : List Char

def NumberScan.misspelt (rest : List Char) : NumberScan :=
  { value := .error (if rest.isEmpty then .endInValue else .invalidNumber)
    broken := some .invalidNumber
    rest := rest }

def NumberScan.complete (n : Numeral) (rest : List Char) : NumberScan :=
  { value := n.value, broken := none, rest := rest }

def exponentSign : List Char → Bool × List Char
  | '+' :: more => (true, more)
  | '-' :: more => (false, more)
  | more => (true, more)

def scanExponentDigits (n : Numeral) (up : Bool) (cs : List Char) : NumberScan :=
  if (cs.takeWhile Char.isDigit).isEmpty then .misspelt cs
  else .complete { n with exponent := some (up, cs.takeWhile Char.isDigit) }
    (cs.dropWhile Char.isDigit)

def scanExponent (n : Numeral) (cs : List Char) : NumberScan :=
  match cs with
  | [] => .complete n []
  | c :: after =>
    if c = 'e' ∨ c = 'E' then scanExponentDigits n (exponentSign after).1 (exponentSign after).2
    else .complete n cs

def scanFraction (n : Numeral) (cs : List Char) : NumberScan :=
  match cs with
  | '.' :: after =>
    if (after.takeWhile Char.isDigit).isEmpty then .misspelt after
    else scanExponent { n with fraction := after.takeWhile Char.isDigit }
      (after.dropWhile Char.isDigit)
  | _ => scanExponent n cs

def scanDigits (negative : Bool) (cs : List Char) : NumberScan :=
  match cs with
  | [] => .misspelt []
  | c :: after =>
    if c = '0' then
      match after with
      | d :: _ =>
        if d.isDigit then .misspelt after
        else scanFraction ⟨negative, [c], [], none⟩ after
      | [] => scanFraction ⟨negative, [c], [], none⟩ []
    else if c.isDigit then
      scanFraction ⟨negative, c :: after.takeWhile Char.isDigit, [], none⟩
        (after.dropWhile Char.isDigit)
    else .misspelt cs

def scanNumber (cs : List Char) : NumberScan :=
  match cs with
  | '-' :: digits => scanDigits true digits
  | digits => scanDigits false digits

theorem dropDigits (cs : List Char) : (cs.dropWhile Char.isDigit).length ≤ cs.length :=
  (List.dropWhile_suffix Char.isDigit).length_le

theorem exponentSignRest (cs : List Char) : (exponentSign cs).2.length ≤ cs.length := by
  unfold exponentSign
  split <;> simp

theorem scanExponentRest (n : Numeral) (cs : List Char) :
    (scanExponent n cs).rest.length ≤ cs.length := by
  unfold scanExponent
  split
  · simp [NumberScan.complete]
  · next c after =>
    split
    · have sign := exponentSignRest after
      have digits := dropDigits (exponentSign after).2
      unfold scanExponentDigits
      split <;> simp only [NumberScan.misspelt, NumberScan.complete, List.length_cons] <;> omega
    · simp [NumberScan.complete]

theorem scanFractionRest (n : Numeral) (cs : List Char) :
    (scanFraction n cs).rest.length ≤ cs.length := by
  unfold scanFraction
  split
  · next after =>
    have digits := dropDigits after
    split
    · simp [NumberScan.misspelt]
    · refine Nat.le_trans (scanExponentRest _ _) ?_
      simp only [List.length_cons]
      omega
  · exact scanExponentRest n cs

theorem scanDigitsRest (negative : Bool) (c : Char) (cs : List Char) (h : c.isDigit) :
    (scanDigits negative (c :: cs)).rest.length ≤ cs.length := by
  unfold scanDigits
  dsimp only
  split
  · split
    · split
      · simp [NumberScan.misspelt]
      · exact scanFractionRest _ _
    · exact scanFractionRest _ _
  · exact Nat.le_trans (scanFractionRest _ _) (dropDigits _)

theorem scanDigitsLength (negative : Bool) (cs : List Char) :
    (scanDigits negative cs).rest.length ≤ cs.length := by
  cases cs with
  | nil => simp [scanDigits, NumberScan.misspelt]
  | cons c cs =>
    cases h : c.isDigit with
    | true =>
      have := scanDigitsRest negative c cs h
      simp only [List.length_cons]
      omega
    | false =>
      have zero : c ≠ '0' := by
        intro same
        subst same
        exact absurd h (by decide)
      simp [scanDigits, h, zero, NumberScan.misspelt]

theorem scanNumberRest (c : Char) (cs : List Char) (h : c = '-' ∨ c.isDigit) :
    (scanNumber (c :: cs)).rest.length ≤ cs.length := by
  unfold scanNumber
  split
  · next same =>
    cases same
    exact scanDigitsLength true cs
  · next other =>
    rcases h with minus | digit
    · exact absurd (by rw [minus]) (other cs)
    · exact scanDigitsRest false c cs digit

end CompilationUnit.Json
