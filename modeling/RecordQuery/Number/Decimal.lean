import RecordQuery.Number.Double
import RecordQuery.Number.Integer
import RecordQuery.Text.Blank

namespace RecordQuery

/-- The value `digits * 10 ^ exponent`, with a sign. -/
structure Decimal where
  negative : Bool
  digits : Nat
  exponent : Int
  deriving DecidableEq, Repr

namespace Decimal

def digitCount (n : Nat) : Nat := if n = 0 then 0 else (Nat.toDigits 10 n).length

/-- The nearest binary number. A magnitude of 10³¹⁰ or more is infinite and one below 10⁻³³¹ is
zero; neither needs its power of ten worked out. -/
def toDouble (d : Decimal) : Double :=
  let size := d.exponent + digitCount d.digits
  if d.digits = 0 then .zero d.negative
  else if 310 < size then .infinity d.negative
  else if size < -330 then .zero d.negative
  else if 0 ≤ d.exponent then .ofRatio d.negative (d.digits * Nat.pow 10 d.exponent.toNat) 1
  else .ofRatio d.negative d.digits (Nat.pow 10 (-d.exponent).toNat)

def readExponent? : List Char → Option Int
  | [] => some 0
  | c :: cs => if c = 'e' ∨ c = 'E' then Number.readInt? cs else none

def readUnsigned? (negative : Bool) (cs : List Char) : Option Decimal :=
  let whole := cs.takeWhile Char.isDigit
  let rest := cs.dropWhile Char.isDigit
  let (part, rest) := match rest with
    | '.' :: rest => (rest.takeWhile Char.isDigit, rest.dropWhile Char.isDigit)
    | rest => ([], rest)
  match Number.digits? (whole ++ part), readExponent? rest with
  | some n, some e => some ⟨negative, n, e - part.length⟩
  | _, _ => none

def splitSign : List Char → Bool × List Char
  | '-' :: cs => (true, cs)
  | '+' :: cs => (false, cs)
  | cs => (false, cs)

theorem length_splitSign_le : ∀ cs : List Char, (splitSign cs).2.length ≤ cs.length
  | [] => by simp [splitSign]
  | c :: cs => by
      unfold splitSign
      split
      · next h => cases h; simp
      · next h => cases h; simp
      · exact Nat.le_refl _

def read? (cs : List Char) : Option Decimal :=
  let (negative, cs) := splitSign cs
  readUnsigned? negative cs

end Decimal

namespace Double

/-- Reads a decimal numeral, `inf`, `infinity` or `nan`, the words in any case of letters, each
with an optional sign. -/
def read? (cs : List Char) : Option Double :=
  let (negative, body) := Decimal.splitSign cs
  let word := String.ofList (body.map Char.toLower)
  if word = "inf" ∨ word = "infinity" then some (.infinity negative)
  else if word = "nan" then some (.nan negative)
  else (Decimal.readUnsigned? negative body).map Decimal.toDouble

end Double

end RecordQuery
