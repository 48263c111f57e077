import RecordQuery.Json.Basic
import RecordQuery.Number.Decimal

/-!
The numerals of JSON text and the numbers they stand for. A numeral that is no integer of 64 bits
becomes a binary number in one of two ways: at once, which gives the nearest one, or in steps, where
the digits in front are rounded first and the power of ten is applied to them after that. The second
way can miss the nearest number by a few places.
-/

namespace RecordQuery.Json

inductive Weighing where
  | atOnce
  | inSteps
  deriving DecidableEq, Repr

structure Numeral where
  negative : Bool
  whole : List Char
  part : List Char
  exponent : Option Int
  deriving DecidableEq, Repr

namespace Numeral

def decimal (n : Numeral) : Decimal :=
  ⟨n.negative, Nat.ofDigitChars 10 (n.whole ++ n.part) 0, n.exponent.getD 0 - n.part.length⟩

/-- Appends digits to a number while it fits 64 bits; the digits from the first that does not fit
are left over. -/
def fill (n : Nat) : List Char → Nat × List Char
  | [] => (n, [])
  | c :: cs =>
      let m := 10 * n + (c.toNat - '0'.toNat)
      if m < 0x10000000000000000 then fill m cs else (n, c :: cs)

/-- The value of the digits in front that fit 64 bits. Of the others, those before the point keep
their places and those after it are dropped. -/
def leading (n : Numeral) : Decimal :=
  let whole := fill 0 n.whole
  let all := fill whole.1 n.part
  ⟨n.negative, all.1,
    n.exponent.getD 0 + whole.2.length - (n.part.length - all.2.length : Nat)⟩

def power (k : Nat) : Double := Decimal.toDouble ⟨false, 1, k⟩

/-- A magnitude divided by a power of ten. A power that is no finite number is applied in factors
of 10³⁰⁸ and a rest, and each quotient is rounded. -/
def lower (x : Double) (k : Nat) : Double :=
  if x.word = 0 then x
  else if k ≤ 308 then x.div (power k)
  else lower (x.div (power 308)) (k - 308)
termination_by k

def scaled (d : Decimal) : Double :=
  let x := Double.ofRatio d.negative d.digits 1
  if d.digits = 0 then x
  else if 308 < d.exponent then .infinity d.negative
  else if 0 ≤ d.exponent then x.mul (power d.exponent.toNat)
  else lower x (-d.exponent).toNat

def toDouble (w : Weighing) (n : Numeral) : Double :=
  match w with
  | .atOnce => n.decimal.toDouble
  | .inSteps => scaled n.leading

/-- A number as data. One without fraction and exponent is an integer if it fits 64 bits, with or
without a sign; minus zero is no integer. A number too large for a finite one is refused. -/
def toJson? (w : Weighing) (n : Numeral) : Option Json :=
  let i := if n.negative then -Int.ofNat n.decimal.digits else Int.ofNat n.decimal.digits
  if n.part = [] ∧ n.exponent = none ∧ ¬(n.negative ∧ i = 0) ∧
      -0x8000000000000000 ≤ i ∧ i < 0x10000000000000000 then some (.int i)
  else
    let x := n.toDouble w
    if x.isFinite then some (.decimal x) else none

end Numeral

end RecordQuery.Json
