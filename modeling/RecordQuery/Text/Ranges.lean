namespace RecordQuery.Text

def covers : List (Nat × Nat) → Nat → Bool
  | [], _ => false
  | (first, last) :: rest, n =>
      if n < first then false else decide (n ≤ last) || covers rest n

theorem covers_of_lt_first {first last : Nat} {rest : List (Nat × Nat)} {n : Nat}
    (h : n < first) : covers ((first, last) :: rest) n = false := by
  simp [covers, h]

end RecordQuery.Text
