/-!
Shortest decimal digits of a binary floating-point number, found in exact natural-number
arithmetic: the value is `mantissa * 2 ^ exponent`, and the digits are the first on the decimal
grids of one, two, three … digits that lie in the interval of reals rounding to the value.
-/
namespace CompilationUnit.Decimal

/-- A positive value `mantissa * 2 ^ exponent`, with the gap below it halved at a power of two. -/
structure Binary where
  mantissa : Nat
  exponent : Int
  narrowBelow : Bool
  deriving DecidableEq, Repr

structure Scientific where
  significand : Nat
  exponent : Int
  deriving DecidableEq, Repr

structure Interval where
  low : Nat
  value : Nat
  high : Nat
  unit : Nat
  closed : Bool
  deriving DecidableEq, Repr

def Binary.interval (b : Binary) : Interval :=
  let shift := b.exponent - 2
  let scale := Nat.pow 2 shift.toNat
  { low := (4 * b.mantissa - if b.narrowBelow then 1 else 2) * scale
    value := 4 * b.mantissa * scale
    high := (4 * b.mantissa + 2) * scale
    unit := Nat.pow 2 (-shift).toNat
    closed := b.mantissa % 2 == 0 }

def Interval.holds (i : Interval) (digits : Nat) (exponent : Int) : Bool :=
  let point := digits * Nat.pow 10 exponent.toNat * i.unit
  let down := Nat.pow 10 (-exponent).toNat
  if i.closed then i.low * down ≤ point && point ≤ i.high * down
  else i.low * down < point && point < i.high * down

def Interval.magnitude (i : Interval) : Nat → Int → Int
  | 0, guess => guess
  | fuel + 1, guess =>
    if Nat.pow 10 guess.toNat * i.unit ≤ i.value * Nat.pow 10 (-guess).toNat then guess
    else i.magnitude fuel (guess - 1)

def Interval.neighbour (i : Interval) (exponent : Int) : Option Nat :=
  let top := i.value * Nat.pow 10 (-exponent).toNat
  let step := Nat.pow 10 exponent.toNat * i.unit
  let below := top / step
  let above := below + 1
  match i.holds below exponent, i.holds above exponent with
  | true, true =>
    let fromBelow := top - below * step
    let toAbove := above * step - top
    if fromBelow < toAbove then some below
    else if toAbove < fromBelow then some above
    else if below % 2 = 0 then some below else some above
  | true, false => some below
  | false, true => some above
  | false, false => none

def Scientific.trim : Nat → Scientific → Scientific
  | 0, s => s
  | fuel + 1, s =>
    if s.significand ≠ 0 ∧ s.significand % 10 = 0 then
      Scientific.trim fuel ⟨s.significand / 10, s.exponent + 1⟩
    else s

def Interval.search (i : Interval) (magnitude : Int) : Nat → Nat → Scientific
  | 0, _ => ⟨0, 0⟩
  | fuel + 1, digits =>
    let exponent := magnitude - digits
    match i.neighbour exponent with
    | some s => ⟨s, exponent⟩
    | none => i.search magnitude fuel (digits + 1)

def Binary.shortest (b : Binary) : Scientific :=
  let i := b.interval
  (i.search (i.magnitude 700 310) 18 0).trim 20

def Binary.ofBits (bits : UInt64) : Binary :=
  let fraction := (bits &&& 0x000fffffffffffff).toNat
  let biased := ((bits >>> 52) &&& 0x7ff).toNat
  if biased = 0 then ⟨fraction, -1074, false⟩
  else ⟨fraction + Nat.pow 2 52, (biased : Int) - 1075, fraction = 0 && biased > 1⟩

def pointed (digits : List Char) (place : Nat) : String :=
  let tail := digits.drop place
  String.ofList (digits.take place) ++ "." ++ (if tail.isEmpty then "0" else String.ofList tail)

def exponentText (e : Int) : String := (if e < 0 then "e-" else "e+") ++ toString e.natAbs

def Scientific.text (s : Scientific) : String :=
  let digits := Nat.toDigits 10 s.significand
  let leading : Int := s.exponent + digits.length - 1
  if leading < -5 ∨ 16 ≤ leading then
    match digits with
    | [only] => String.ofList [only] ++ exponentText leading
    | _ => pointed digits 1 ++ exponentText leading
  else if leading < 0 then
    "0." ++ String.ofList (List.replicate (-leading - 1).toNat '0') ++ String.ofList digits
  else
    let place := leading.toNat + 1
    pointed (digits ++ List.replicate (place - digits.length) '0') place

def floatText (x : Float) : String :=
  let bits := x.toBits
  let sign := if bits >>> 63 = 1 then "-" else ""
  let size := Binary.ofBits bits
  sign ++ if size.mantissa = 0 then "0.0" else size.shortest.text

end CompilationUnit.Decimal
