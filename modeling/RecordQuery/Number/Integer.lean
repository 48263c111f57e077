namespace RecordQuery.Number

def digits? (cs : List Char) : Option Nat :=
  if cs ≠ [] ∧ cs.all Char.isDigit then some (Nat.ofDigitChars 10 cs 0) else none

theorem digits?_toDigits (n : Nat) : digits? (Nat.toDigits 10 n) = some n := by
  have hall : (Nat.toDigits 10 n).all Char.isDigit = true :=
    List.all_eq_true.2 fun c hc => Nat.isDigit_of_mem_toDigits (by decide) (by decide) hc
  simp [digits?, hall, Nat.toDigits_ne_nil]

def readInt? : List Char → Option Int
  | '+' :: cs => (digits? cs).map Int.ofNat
  | '-' :: cs => (digits? cs).map fun n => -Int.ofNat n
  | cs => (digits? cs).map Int.ofNat

def writeInt (i : Int) : List Char :=
  if i < 0 then '-' :: Nat.toDigits 10 i.natAbs else Nat.toDigits 10 i.natAbs

def toInt64? (i : Int) : Option Int64 :=
  if -0x8000000000000000 ≤ i ∧ i < 0x8000000000000000 then some (Int64.ofInt i) else none

theorem toInt_of_toInt64? {i : Int} {w : Int64} (h : toInt64? i = some w) : w.toInt = i := by
  simp only [toInt64?] at h
  split at h
  · next hr =>
      cases h
      exact Int64.toInt_ofInt_of_le (by simpa using hr.1) (by simpa using hr.2)
  · simp at h

theorem toInt64?_toInt (w : Int64) : toInt64? w.toInt = some w := by
  rw [toInt64?, if_pos ⟨w.le_toInt, w.toInt_lt⟩, Int64.ofInt_toInt]

def readInt64? (cs : List Char) : Option Int64 := (readInt? cs).bind toInt64?

def writeInt64 (w : Int64) : List Char := writeInt w.toInt

theorem readInt?_writeInt (i : Int) : readInt? (writeInt i) = some i := by
  have hdig : ∀ n : Nat, ∀ c ∈ Nat.toDigits 10 n, c.isDigit = true := fun n c hc =>
    Nat.isDigit_of_mem_toDigits (by decide) (by decide) hc
  unfold writeInt
  split
  · next h =>
      simp only [readInt?, digits?_toDigits, Option.map_some, Option.some.injEq, Int.ofNat_eq_natCast]
      omega
  · next h =>
      have hd := digits?_toDigits i.natAbs
      have hall := hdig i.natAbs
      cases hcs : Nat.toDigits 10 i.natAbs with
      | nil => exact absurd hcs Nat.toDigits_ne_nil
      | cons c cs =>
          rw [hcs] at hd hall
          have hc : c.isDigit = true := hall c (by simp)
          unfold readInt?
          split
          · next heq => cases heq; simp at hc
          · next heq => cases heq; simp at hc
          · rw [hd, Option.map_some, Option.some.injEq, Int.ofNat_eq_natCast]; omega

theorem readInt64?_writeInt64 (w : Int64) : readInt64? (writeInt64 w) = some w := by
  simp [readInt64?, writeInt64, readInt?_writeInt, toInt64?_toInt]

end RecordQuery.Number
