import CompilationUnit.Json.Token
import Mathlib.Data.List.Basic

/-! Integers as they are written: the decimal digits of an integer of 64 bits are read as that integer,
where nothing follows that could go on with the number. -/
namespace CompilationUnit.Json

def EndsValue (rest : List Char) : Prop :=
  ∀ c cs, rest = c :: cs →
    c = ' ' ∨ c = '\t' ∨ c = '\n' ∨ c = '\r' ∨ c = ',' ∨ c = ']' ∨ c = '\x7d'

theorem digitNonzero : ∀ d < 10, 0 < d → Nat.digitChar d ≠ '0' := by decide

theorem leadingDigit {n : Nat} (positive : 0 < n) :
    ∃ c cs, Nat.toDigits 10 n = c :: cs ∧ c ≠ '0' := by
  induction n using Nat.strongRecOn with
  | ind n ih =>
    by_cases small : n < 10
    · exact ⟨Nat.digitChar n, [], Nat.toDigits_of_lt_base small, digitNonzero n small positive⟩
    · obtain ⟨c, cs, lead, nonzero⟩ := ih (n / 10) (by omega) (by omega)
      have split := Nat.toDigits_append_toDigits (b := 10) (n := n / 10) (d := n % 10)
        (by omega) (by omega) (by omega)
      rw [Nat.div_add_mod, lead] at split
      exact ⟨c, cs ++ Nat.toDigits 10 (n % 10), split.symm, nonzero⟩

theorem allDigits {n : Nat} {c : Char} (member : c ∈ Nat.toDigits 10 n) : c.isDigit = true :=
  Nat.isDigit_of_mem_toDigits (by omega) (by omega) member

theorem digitsValue (n : Nat) :
    (Nat.toDigits 10 n).foldl (fun s c => s * 10 + digitValue c) 0 = n := by
  have value := Nat.ofDigitChars_toDigits (b := 10) (n := n) (by omega) (by omega)
  unfold Nat.ofDigitChars at value
  simpa only [digitValue, Nat.mul_comm] using value

theorem takeDigitsWritten {ds rest : List Char} (digits : ∀ c ∈ ds, c.isDigit = true)
    (ends : EndsValue rest) :
    (ds ++ rest).takeWhile Char.isDigit = ds ∧ (ds ++ rest).dropWhile Char.isDigit = rest := by
  have stops : rest.takeWhile Char.isDigit = [] ∧ rest.dropWhile Char.isDigit = rest := by
    cases rest with
    | nil => exact ⟨rfl, rfl⟩
    | cons c cs => rcases ends c cs rfl with rfl | rfl | rfl | rfl | rfl | rfl | rfl <;> exact ⟨rfl, rfl⟩
  rw [List.takeWhile_append_of_pos digits, List.dropWhile_append_of_pos digits, stops.1, stops.2]
  exact ⟨List.append_nil ds, rfl⟩

theorem scanFractionEnds (n : Numeral) {rest : List Char} (ends : EndsValue rest) :
    scanFraction n rest = .complete n rest := by
  cases rest with
  | nil => rfl
  | cons c cs => rcases ends c cs rfl with rfl | rfl | rfl | rfl | rfl | rfl | rfl <;> rfl

def Numeral.ofInt (i : Int) : Numeral := ⟨decide (i < 0), Nat.toDigits 10 i.natAbs, [], none⟩

theorem scanDigitsWritten (negative : Bool) (n : Nat) {rest : List Char} (ends : EndsValue rest) :
    scanDigits negative (Nat.toDigits 10 n ++ rest) =
      .complete ⟨negative, Nat.toDigits 10 n, [], none⟩ rest := by
  rcases Nat.eq_zero_or_pos n with rfl | positive
  · have zero : Nat.toDigits 10 0 = ['0'] := rfl
    rw [zero]
    cases rest with
    | nil => rfl
    | cons c cs => rcases ends c cs rfl with rfl | rfl | rfl | rfl | rfl | rfl | rfl <;> rfl
  · obtain ⟨c, cs, lead, nonzero⟩ := leadingDigit positive
    have digits : ∀ d ∈ c :: cs, d.isDigit = true := by
      rw [← lead]
      exact fun d => allDigits
    have taken := takeDigitsWritten (fun d member => digits d (List.mem_cons_of_mem c member)) ends
    rw [lead, List.cons_append]
    unfold scanDigits
    dsimp only
    rw [if_neg nonzero, if_pos (digits c List.mem_cons_self), taken.1, taken.2]
    exact scanFractionEnds _ ends

theorem integerText (i : Int) : (toString i).toList =
    (if i < 0 then ['-'] else []) ++ Nat.toDigits 10 i.natAbs := by
  cases i with
  | ofNat n =>
    have positive : ¬ (Int.ofNat n < 0) := by simp
    rw [if_neg positive]
    exact Nat.toList_repr
  | negSucc n =>
    have negative : Int.negSucc n < 0 := Int.negSucc_lt_zero n
    rw [if_pos negative]
    change ("-" ++ Nat.repr (n + 1)).toList = _
    rw [String.toList_append, Nat.toList_repr]
    rfl

theorem scanUnsigned {c : Char} {cs : List Char} (unsigned : c ≠ '-') :
    scanNumber (c :: cs) = scanDigits false (c :: cs) := by
  unfold scanNumber
  split
  · rename_i same
    cases same
    contradiction
  · rfl

theorem scanNumberWritten (i : Int) {rest : List Char} (ends : EndsValue rest) :
    scanNumber ((toString i).toList ++ rest) = .complete (.ofInt i) rest := by
  rw [integerText]
  unfold Numeral.ofInt
  by_cases negative : i < 0
  · simp only [negative, if_true, List.cons_append, List.nil_append, decide_true]
    exact scanDigitsWritten true i.natAbs ends
  · simp only [negative, if_false, List.nil_append, decide_false]
    rw [← scanDigitsWritten false i.natAbs ends]
    cases lead : Nat.toDigits 10 i.natAbs with
    | nil => exact absurd lead Nat.toDigits_ne_nil
    | cons c cs =>
      refine scanUnsigned ?_
      rintro rfl
      have digit : ('-' : Char).isDigit = true := allDigits (lead ▸ List.mem_cons_self)
      contradiction

def FitsNumber (i : Int) : Prop := -0x8000000000000000 ≤ i ∧ i ≤ 0xffffffffffffffff

theorem integerOfInt {i : Int} (fits : FitsNumber i) : (Numeral.ofInt i).integerValue? = some i := by
  obtain ⟨low, high⟩ := fits
  simp only [Numeral.ofInt, Numeral.integerValue?, digitsValue, List.isEmpty_nil, Option.isNone_none,
    and_self, if_true, decide_eq_true_eq, significandMax, UInt64.size]
  split
  · rename_i negative
    rw [if_pos (by omega)]
    exact congrArg some (by omega)
  · rename_i negative
    rw [if_pos (by omega)]
    exact congrArg some (by omega)

theorem valueOfInt {i : Int} (fits : FitsNumber i) : (Numeral.ofInt i).value = .ok (.integer i) := by
  unfold Numeral.value
  rw [integerOfInt fits]

end CompilationUnit.Json
