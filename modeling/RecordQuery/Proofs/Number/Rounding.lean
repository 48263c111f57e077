import RecordQuery.Number.Decimal

namespace RecordQuery.Double

theorem roundHalfEven_mul_right (n d : Nat) {k : Nat} (hk : 0 < k) :
    roundHalfEven (n * k) (d * k) = roundHalfEven n d := by
  have hquotient : n * k / (d * k) = n / d := Nat.mul_div_mul_right n d hk
  have hrest : n * k % (d * k) = n % d * k := Nat.mul_mod_mul_right k n d
  have hbelow : 2 * (n % d * k) < d * k ↔ 2 * (n % d) < d := by
    rw [← Nat.mul_assoc]
    exact Nat.mul_lt_mul_right hk
  have habove : d * k < 2 * (n % d * k) ↔ d < 2 * (n % d) := by
    rw [← Nat.mul_assoc]
    exact Nat.mul_lt_mul_right hk
  unfold roundHalfEven
  simp only [hquotient, hrest, hbelow, habove]

theorem nearestWord_mul_right (n d : Nat) {k : Nat} (hk : 0 < k) :
    nearestWord (n * k) (d * k) = nearestWord n d := by
  have hshift : ∀ s, (d * k) <<< s = (d <<< s) * k := fun s => by
    rw [Nat.shiftLeft_eq, Nat.shiftLeft_eq, Nat.mul_right_comm]
  unfold nearestWord
  simp only [Nat.mul_div_mul_right n d hk, hshift, roundHalfEven_mul_right n _ hk]

theorem ofRatio_mul_right (negative : Bool) (n d : Nat) {k : Nat} (hk : 0 < k) :
    ofRatio negative (n * k) (d * k) = ofRatio negative n d := by
  have hword : nearestWord (n * k * unitsOfOne) (d * k) = nearestWord (n * unitsOfOne) d := by
    rw [Nat.mul_right_comm, nearestWord_mul_right _ _ hk]
  simp only [ofRatio, hword]

theorem roundHalfEven_one (n : Nat) : roundHalfEven n 1 = n := by
  simpa using roundHalfEven_mul n Nat.one_pos

theorem log2_significand {fraction shift : Nat} (h : fraction < exponentUnit) :
    Nat.log2 ((exponentUnit + fraction) <<< shift) = 52 + shift := by
  have hlow : 2 ^ 52 ≤ exponentUnit + fraction := Nat.le_add_right _ _
  have hhigh : exponentUnit + fraction < 2 ^ 53 := by
    unfold exponentUnit at *
    omega
  rw [Nat.shiftLeft_eq]
  refine (Nat.log2_eq_iff (Nat.pos_iff_ne_zero.1 ?_)).2 ⟨?_, ?_⟩
  · exact Nat.mul_pos (Nat.lt_of_lt_of_le (Nat.two_pow_pos 52) hlow) (Nat.two_pow_pos shift)
  · rw [Nat.pow_add]
    exact Nat.mul_le_mul_right _ hlow
  · rw [Nat.add_right_comm, Nat.pow_add]
    exact Nat.mul_lt_mul_of_pos_right hhigh (Nat.two_pow_pos shift)

theorem log2_fraction_le {fraction : Nat} (h : fraction < exponentUnit) :
    Nat.log2 fraction - 52 = 0 := by
  by_cases hzero : fraction = 0
  · rw [hzero, Nat.log2_zero]
  · have hlt : Nat.log2 fraction < 52 := (Nat.log2_lt hzero).2 h
    omega

theorem nearestWord_unitsOfWord {word : Nat} (h : word ≤ infinityWord) :
    nearestWord (unitsOfWord word) 1 = word := by
  have hfraction : word % exponentUnit < exponentUnit := Nat.mod_lt _ (by decide)
  have hsplit := Nat.div_add_mod word exponentUnit
  unfold nearestWord unitsOfWord
  rw [Nat.div_one]
  by_cases hfield : word / exponentUnit = 0
  · simp only [if_pos hfield, log2_fraction_le hfraction, Nat.shiftLeft_zero, roundHalfEven_one]
    rw [hfield] at hsplit
    omega
  · simp only [if_neg hfield, log2_significand hfraction, Nat.add_sub_cancel_left]
    have hshift : (exponentUnit + word % exponentUnit) <<< (word / exponentUnit - 1) =
        (exponentUnit + word % exponentUnit) * 1 <<< (word / exponentUnit - 1) := by
      rw [Nat.shiftLeft_eq, Nat.shiftLeft_eq, Nat.one_mul]
    rw [hshift, roundHalfEven_mul _ (Nat.shiftLeft_pos_iff.2 Nat.one_pos)]
    have hword : (word / exponentUnit - 1) * exponentUnit + (exponentUnit + word % exponentUnit) =
        word := by
      obtain ⟨field, hsucc⟩ := Nat.exists_eq_succ_of_ne_zero hfield
      rw [hsucc, Nat.succ_sub_one, ← Nat.add_assoc, ← Nat.succ_mul, Nat.mul_comm, ← hsucc, hsplit]
    rw [hword]
    exact Nat.min_eq_left h

theorem unitsOfOne_pos : 0 < unitsOfOne := Nat.shiftLeft_pos_iff.2 Nat.one_pos

theorem ofRatio_units (x : Double) (h : x.isFinite = true) :
    ofRatio x.negative x.units unitsOfOne = x := by
  have hword : nearestWord (x.units * unitsOfOne) unitsOfOne = x.word := by
    have hone := nearestWord_mul_right x.units 1 unitsOfOne_pos
    rw [Nat.one_mul] at hone
    rw [hone]
    exact nearestWord_unitsOfWord (Nat.le_of_lt (of_decide_eq_true h))
  simp only [ofRatio, hword]

end RecordQuery.Double
