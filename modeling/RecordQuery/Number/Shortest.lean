import RecordQuery.Number.Decimal

namespace RecordQuery

inductive Tie where
  | upward
  | toEven
  deriving DecidableEq, Repr

namespace Double

/-- The exact decimal expansion. A unit of 2⁻¹⁰⁷⁴ is 5¹⁰⁷⁴ times 10⁻¹⁰⁷⁴. -/
def expansion (x : Double) : Decimal := ⟨x.negative, x.units * Nat.pow 5 1074, -1074⟩

/-- The two neighbours of `digits * 10 ^ exponent` once its last `dropped` digits are dropped, the
nearer one first. -/
def neighbours (tie : Tie) (d : Decimal) (dropped : Nat) : List Decimal :=
  let scale := Nat.pow 10 dropped
  let low := d.digits / scale
  let twice := 2 * (d.digits % scale)
  let lower : Decimal := ⟨d.negative, low, d.exponent + dropped⟩
  let upper : Decimal := ⟨d.negative, low + 1, d.exponent + dropped⟩
  let upperFirst := decide (scale < twice) ||
    (decide (twice = scale) && (tie = .upward || low % 2 = 1))
  if upperFirst then [upper, lower] else [lower, upper]

/-- Decimals of 1, 2, ..., 17 digits beside the number, then its exact expansion. -/
def candidates (tie : Tie) (x : Double) : List Decimal :=
  let exact := x.expansion
  let count := Decimal.digitCount exact.digits
  (List.range 17).flatMap (fun n => neighbours tie exact (count - (n + 1))) ++ [exact]

/-- The first candidate that reads back, so one with the fewest digits. -/
def shortest (tie : Tie) (x : Double) : Decimal :=
  ((x.candidates tie).find? fun d => d.toDouble = x).getD x.expansion

/-- How the text of a number is laid out. With its digits `d₁d₂...` read as `0.d₁d₂... * 10 ^ p`,
the number is written positionally when `p` lies from `least` to `greatest`. -/
structure Layout where
  tie : Tie
  least : Option Int
  greatest : Option Int
  pointAlways : Bool
  plusSign : Bool
  deriving DecidableEq, Repr

namespace Layout

def positional (l : Layout) (p : Int) : Bool :=
  (match l.least with | none => true | some n => n ≤ p) &&
  (match l.greatest with | none => true | some n => p ≤ n)

def place (l : Layout) (ds : List Char) (p : Int) : List Char :=
  if p ≤ 0 then '0' :: '.' :: List.replicate (-p).toNat '0' ++ ds
  else if ds.length ≤ p.toNat then
    ds ++ List.replicate (p.toNat - ds.length) '0' ++ (if l.pointAlways then ['.', '0'] else [])
  else ds.take p.toNat ++ '.' :: ds.drop p.toNat

def scale (l : Layout) (ds : List Char) (p : Int) : List Char :=
  let fraction := if ds.tail = [] then [] else '.' :: ds.tail
  let plus := if l.plusSign ∧ 0 < p then ['+'] else []
  ds.take 1 ++ fraction ++ 'e' :: plus ++ Number.writeInt (p - 1)

def significant (ds : List Char) : List Char := (ds.reverse.dropWhile (· = '0')).reverse

def magnitude (l : Layout) (d : Decimal) : List Char :=
  let all := Nat.toDigits 10 d.digits
  let ds := significant all
  let p := d.exponent + all.length
  if l.positional p then l.place ds p else l.scale ds p

def zero (l : Layout) : List Char := if l.pointAlways then ['0', '.', '0'] else ['0']

end Layout

def text (l : Layout) (x : Double) : List Char :=
  let sign := if x.negative then ['-'] else []
  if x.isNaN then ['N', 'a', 'N']
  else if x.isInfinite then sign ++ ['i', 'n', 'f']
  else if x.word = 0 then sign ++ l.zero
  else sign ++ l.magnitude (x.shortest l.tie)

end Double

end RecordQuery
