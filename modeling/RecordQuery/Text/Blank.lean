import RecordQuery.Text.Ranges

namespace RecordQuery.Text

/-- The code points of the property White_Space. -/
def blanks : List (Nat × Nat) := [
    (0x9, 0xD), (0x20, 0x20), (0x85, 0x85), (0xA0, 0xA0), (0x1680, 0x1680), (0x2000, 0x200A),
    (0x2028, 0x2029), (0x202F, 0x202F), (0x205F, 0x205F), (0x3000, 0x3000)]

def isBlank (c : Char) : Bool := covers blanks c.toNat

def afterBlanks (cs : List Char) : List Char := cs.dropWhile isBlank

theorem afterBlanks_cons_of_blank {c : Char} {cs : List Char} (h : isBlank c = true) :
    afterBlanks (c :: cs) = afterBlanks cs := by
  simp [afterBlanks, h]

theorem afterBlanks_cons_of_not_blank {c : Char} {cs : List Char} (h : isBlank c = false) :
    afterBlanks (c :: cs) = c :: cs := by
  simp [afterBlanks, h]

theorem length_afterBlanks_le (cs : List Char) : (afterBlanks cs).length ≤ cs.length :=
  (List.dropWhile_sublist isBlank).length_le

def trim (cs : List Char) : List Char :=
  (afterBlanks (afterBlanks cs).reverse).reverse

end RecordQuery.Text
