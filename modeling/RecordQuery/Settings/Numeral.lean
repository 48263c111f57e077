import RecordQuery.Number.Digit

/-!
The numerals of a settings file: decimal with an optional sign, or hexadecimal, octal or binary
after `0x`, `0o` or `0b`. Single underscores may stand between digits, and a decimal numeral has no
leading zero.
-/

namespace RecordQuery.Settings

/-- The number written by further digits after a number, each with at most one underscore before
it. -/
def moreDigits? (base n : Nat) : List Char → Option Nat
  | [] => some n
  | '_' :: c :: cs => (Number.digit? base c).bind fun d => moreDigits? base (base * n + d) cs
  | c :: cs => (Number.digit? base c).bind fun d => moreDigits? base (base * n + d) cs

def digits? (base : Nat) : List Char → Option Nat
  | [] => none
  | c :: cs => (Number.digit? base c).bind fun d => moreDigits? base d cs

def decimal? : List Char → Option Nat
  | ['0'] => some 0
  | '0' :: _ => none
  | cs => digits? 10 cs

def integer? : List Char → Option Int
  | '0' :: 'x' :: cs => (digits? 16 cs).map Int.ofNat
  | '0' :: 'o' :: cs => (digits? 8 cs).map Int.ofNat
  | '0' :: 'b' :: cs => (digits? 2 cs).map Int.ofNat
  | '+' :: cs => (decimal? cs).map Int.ofNat
  | '-' :: cs => (decimal? cs).map fun n => -Int.ofNat n
  | cs => (decimal? cs).map Int.ofNat

def numberLimit : Nat := 0x8000000000000000

def number? (cs : List Char) : Option Nat :=
  match integer? cs with
  | some (.ofNat n) => if n < numberLimit then some n else none
  | _ => none

end RecordQuery.Settings
