/-!
Binary floating point numbers of 64 bits, as a sign and a magnitude word. The word holds the
exponent field and the fraction field, so magnitudes are ordered as their words are; every finite
magnitude is a whole number of units of 2⁻¹⁰⁷⁴.
-/

namespace RecordQuery

structure Double where
  negative : Bool
  word : Nat
  word_lt : word < 0x8000000000000000
  deriving DecidableEq, Repr

namespace Double

/-- The worth of an exponent's unit in a word: the fraction below it has 52 bits. -/
def exponentUnit : Nat := 0x10000000000000

/-- The word of the infinities; words above it are not numbers. -/
def infinityWord : Nat := 0x7FF0000000000000

def isNaN (x : Double) : Bool := infinityWord < x.word

def isInfinite (x : Double) : Bool := x.word = infinityWord

def isFinite (x : Double) : Bool := x.word < infinityWord

def infinity (negative : Bool) : Double := ⟨negative, infinityWord, by decide⟩

def nan (negative : Bool) : Double := ⟨negative, 0x7FF8000000000000, by decide⟩

def zero (negative : Bool) : Double := ⟨negative, 0, by decide⟩

/-- The magnitude of a word in units of 2⁻¹⁰⁷⁴. -/
def unitsOfWord (word : Nat) : Nat :=
  let field := word / exponentUnit
  let fraction := word % exponentUnit
  if field = 0 then fraction else (exponentUnit + fraction) <<< (field - 1)

def units (x : Double) : Nat := unitsOfWord x.word

def unitsOfOne : Nat := 1 <<< 1074

def roundHalfEven (n d : Nat) : Nat :=
  let q := n / d
  let r := n % d
  if 2 * r < d then q else if d < 2 * r then q + 1 else q + q % 2

theorem roundHalfEven_mul (q : Nat) {d : Nat} (h : 0 < d) : roundHalfEven (q * d) d = q := by
  simp [roundHalfEven, h]

/-- The word nearest to `n / d` units. Above 2⁵³ units the last place of a significand is worth
`2 ^ shift` units. -/
def nearestWord (n d : Nat) : Nat :=
  let shift := Nat.log2 (n / d) - 52
  min (shift * exponentUnit + roundHalfEven n (d <<< shift)) infinityWord

theorem nearestWord_lt (n d : Nat) : nearestWord n d < 0x8000000000000000 :=
  Nat.lt_of_le_of_lt (Nat.min_le_right _ _) (by decide)

def ofRatio (negative : Bool) (n d : Nat) : Double :=
  ⟨negative, nearestWord (n * unitsOfOne) d, nearestWord_lt _ _⟩

def ofInt (i : Int) : Double := ofRatio (decide (i < 0)) i.natAbs 1

def mul (x y : Double) : Double :=
  ofRatio (x.negative != y.negative) (x.units * y.units) (unitsOfOne * unitsOfOne)

def div (x y : Double) : Double := ofRatio (x.negative != y.negative) x.units y.units

def toInt? (x : Double) : Option Int :=
  if x.isFinite ∧ x.units % unitsOfOne = 0 then
    let n := Int.ofNat (x.units / unitsOfOne)
    some (if x.negative then -n else n)
  else none

/-- Place on the number line, both zeros in one place. -/
def place (x : Double) : Int := if x.negative then -Int.ofNat x.word else Int.ofNat x.word

def compare? (x y : Double) : Option Ordering :=
  if x.isNaN ∨ y.isNaN then none else some (compare x.place y.place)

/-- Rank among all numbers: negative NaN, minus infinity, ..., -0, 0, ..., infinity, NaN. -/
def rank (x : Double) : Int := if x.negative then -Int.ofNat x.word - 1 else Int.ofNat x.word

def compareTotal (x y : Double) : Ordering := compare x.rank y.rank

def same (x y : Double) : Bool := x.compare? y = some .eq

theorem same_comm (x y : Double) : x.same y = y.same x := by
  simp only [same, compare?, Or.comm]
  split
  · rfl
  · have h : (compare x.place y.place = .eq) ↔ (compare y.place x.place = .eq) := by
      simp only [Int.compare_eq_eq]
      exact eq_comm
    simp [h]

theorem same_self {x : Double} (h : x.isNaN = false) : x.same x = true := by
  simp [same, compare?, h]

end Double

end RecordQuery
