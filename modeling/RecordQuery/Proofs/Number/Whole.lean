import RecordQuery.Proofs.Number.Monotone

namespace RecordQuery.Double

theorem unitsOfWord_places {shift r : Nat} (hlow : exponentUnit ≤ r) (hhigh : r ≤ 2 * exponentUnit) :
    unitsOfWord (shift * exponentUnit + r) = r <<< shift := by
  have hpos : 0 < exponentUnit := by decide
  unfold unitsOfWord
  dsimp only
  rw [Nat.add_comm, Nat.add_mul_div_right _ _ hpos, Nat.add_mul_mod_self_right]
  rcases Nat.lt_or_eq_of_le hhigh with hlt | rfl
  · have hfield : r / exponentUnit = 1 := Nat.div_eq_of_lt_le (by omega) (by omega)
    have hfraction : exponentUnit + r % exponentUnit = r := by
      have := Nat.div_add_mod r exponentUnit
      rw [hfield] at this
      omega
    rw [hfield, if_neg (by omega), hfraction, Nat.add_sub_cancel_left]
  · rw [Nat.mul_div_cancel _ hpos, Nat.mul_mod_left, if_neg (by omega), Nat.add_zero]
    have hplaces : 2 + shift - 1 = 1 + shift := by omega
    rw [hplaces, Nat.shiftLeft_add, Nat.shiftLeft_eq _ 1, Nat.pow_one, Nat.mul_comm]

section Large

variable {n : Nat}

theorem shiftLeft_eleven (r k : Nat) : r <<< (11 + k) = r * 2048 * 1 <<< k := by
  rw [Nat.shiftLeft_add, Nat.shiftLeft_eq r, Nat.shiftLeft_eq _ k, Nat.one_shiftLeft]

theorem log2_large (hlow : 0x8000000000000000 ≤ n) (hhigh : n < 0x10000000000000000) :
    Nat.log2 n = 63 :=
  (Nat.log2_eq_iff (by omega)).2 ⟨hlow, hhigh⟩

def toMultiple (n : Nat) : Nat := roundHalfEven n 2048 * 2048

theorem toMultiple_eq_iff : toMultiple n = n ↔ n % 2048 = 0 := by
  constructor
  · intro h
    rw [← h]
    exact Nat.mul_mod_left _ _
  · intro h
    have hn : n / 2048 * 2048 = n := Nat.div_mul_cancel (Nat.dvd_of_mod_eq_zero h)
    rw [toMultiple, ← hn, roundHalfEven_mul _ (by omega)]

theorem nearestWord_large (hlow : 0x8000000000000000 ≤ n) (hhigh : n < 0x10000000000000000) :
    nearestWord (n * unitsOfOne) 1 = 1085 * exponentUnit + roundHalfEven n 2048 ∧
      exponentUnit ≤ roundHalfEven n 2048 ∧ roundHalfEven n 2048 ≤ 2 * exponentUnit := by
  have hone : n / 1 = n := Nat.div_one n
  have hlog := log2_large hlow hhigh
  have hfrom := @le_roundHalfEven n 1 11 Nat.one_pos (by rw [hone, hlog])
  have hto := @roundHalfEven_le n 1 11 Nat.one_pos (Nat.le_of_eq (by rw [hone, hlog]))
  have hplace : 1 <<< 11 = 2048 := rfl
  rw [hplace] at hfrom hto
  have hunits : n * unitsOfOne = n <<< 1074 := by
    rw [unitsOfOne, Nat.one_shiftLeft, Nat.shiftLeft_eq]
  have hshift : Nat.log2 (n <<< 1074) - 52 = 1085 := by
    rw [log2_shiftLeft (by omega), hlog]
  have hround : roundHalfEven (n <<< 1074) (1 <<< 1085) = roundHalfEven n 2048 := by
    have hdivisor : (1 : Nat) <<< 1085 = 2048 * unitsOfOne := shiftLeft_eleven 1 1074
    rw [← hunits, hdivisor]
    exact roundHalfEven_mul_right n 2048 unitsOfOne_pos
  have hroom : 1085 * exponentUnit + 2 * exponentUnit ≤ infinityWord := by decide
  refine ⟨?_, hfrom, hto⟩
  unfold nearestWord
  dsimp only
  rw [Nat.div_one, hunits, hshift, hround]
  exact Nat.min_eq_left (by omega)

theorem ofInt_large {i : Int} (hlow : 0x8000000000000000 ≤ i) (hhigh : i < 0x10000000000000000) :
    (ofInt i).negative = false ∧ (ofInt i).isFinite = true ∧
      (ofInt i).units = toMultiple i.natAbs * unitsOfOne := by
  obtain ⟨hword, hfrom, hto⟩ := @nearestWord_large i.natAbs (by omega) (by omega)
  have hword' : (ofInt i).word = 1085 * exponentUnit + roundHalfEven i.natAbs 2048 := hword
  have hroom : 1085 * exponentUnit + 2 * exponentUnit < infinityWord := by decide
  refine ⟨?_, ?_, ?_⟩
  · exact decide_eq_false (by omega)
  · rw [isFinite, hword']
    exact decide_eq_true (by omega)
  · rw [units, hword', unitsOfWord_places hfrom hto]
    exact shiftLeft_eleven _ 1074

end Large

end RecordQuery.Double
