import CompilationUnit.Decimal.Shortest
import CompilationUnit.Json.Fault

/-!
Numbers of a JSON text: the written parts and the value they have. An integer fits 64 bits, unsigned
or signed; every other number is a double.
-/
namespace CompilationUnit.Json

inductive Number
  | integer (i : Int)
  | real (text : String)
  deriving DecidableEq, Repr

structure Numeral where
  negative : Bool
  whole : List Char
  fraction : List Char
  exponent : Option (Bool × List Char)
  deriving DecidableEq, Repr

def digitValue (c : Char) : Nat := c.toNat - '0'.toNat

def significandMax : Nat := UInt64.size - 1

def takeDigits (significand taken : Nat) : List Char → Nat × Nat
  | [] => (significand, taken)
  | c :: cs =>
    let next := significand * 10 + digitValue c
    if significandMax < next then (significand, taken) else takeDigits next (taken + 1) cs

def powerOfTen (n : Nat) : Float := Float.ofScientific 1 false n

def scale (x : Float) (e : Int) : Except Fault Float :=
  if e.natAbs ≤ 308 then
    if 0 ≤ e then
      let y := x * powerOfTen e.natAbs
      if y.isInf then .error .numberOutOfRange else .ok y
    else .ok (x / powerOfTen e.natAbs)
  else if x == 0 then .ok x
  else if 0 ≤ e then .error .numberOutOfRange
  else scale (x / powerOfTen 308) (e + 308)
termination_by e.natAbs

def exponentMax : Nat := 0x7fffffff

def Numeral.exponentValue (n : Numeral) : Bool × Nat :=
  match n.exponent with
  | none => (true, 0)
  | some (up, digits) => (up, digits.foldl (fun e c => e * 10 + digitValue c) 0)

def Numeral.realValue (n : Numeral) : Except Fault Float :=
  let (lead, kept) := takeDigits 0 0 n.whole
  let (significand, places) := takeDigits lead 0 n.fraction
  let shift : Int := (n.whole.length - kept : Nat) - places
  let (up, size) := n.exponentValue
  if exponentMax < size then
    if significand ≠ 0 ∧ up then .error .numberOutOfRange else .ok 0
  else scale (UInt64.ofNat significand).toFloat (if up then shift + size else shift - size)

def Numeral.integerValue? (n : Numeral) : Option Int :=
  if n.fraction.isEmpty ∧ n.exponent.isNone then
    let size := n.whole.foldl (fun s c => s * 10 + digitValue c) 0
    if n.negative then
      if size ≠ 0 ∧ size ≤ 0x8000000000000000 then some (-(size : Int)) else none
    else if size ≤ significandMax then some size else none
  else none

def Numeral.value (n : Numeral) : Except Fault Number :=
  match n.integerValue? with
  | some i => .ok (.integer i)
  | none => do
    let x ← n.realValue
    pure (.real (Decimal.floatText (if n.negative then -x else x)))

end CompilationUnit.Json
