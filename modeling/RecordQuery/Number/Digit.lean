namespace RecordQuery.Number

def hexDigit? (c : Char) : Option Nat :=
  if c.isDigit then some (c.toNat - '0'.toNat)
  else if 'a' ≤ c ∧ c ≤ 'f' then some (c.toNat - 'a'.toNat + 10)
  else if 'A' ≤ c ∧ c ≤ 'F' then some (c.toNat - 'A'.toNat + 10)
  else none

def digit? (base : Nat) (c : Char) : Option Nat := (hexDigit? c).filter (· < base)

def ofHexDigits? (digits : List Char) : Option Nat :=
  digits.foldlM (fun n c => (hexDigit? c).map (16 * n + ·)) 0

def character? (n : Nat) : Option Char := if n.isValidChar then some (Char.ofNat n) else none

end RecordQuery.Number
