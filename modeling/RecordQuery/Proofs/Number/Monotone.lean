import RecordQuery.Proofs.Number.Rounding

namespace RecordQuery.Double

theorem div_le_roundHalfEven (n d : Nat) : n / d ≤ roundHalfEven n d := by
  unfold roundHalfEven
  dsimp only
  repeat' split
  all_goals omega

theorem roundHalfEven_le_div_succ (n d : Nat) : roundHalfEven n d ≤ n / d + 1 := by
  unfold roundHalfEven
  dsimp only
  repeat' split
  all_goals omega

theorem roundHalfEven_le_roundHalfEven {n m : Nat} (h : n ≤ m) (d : Nat) :
    roundHalfEven n d ≤ roundHalfEven m d := by
  have hquotient : n / d ≤ m / d := Nat.div_le_div_right h
  by_cases hsame : n / d = m / d
  · -- with one quotient the remainders are ordered as the numbers are
    have hn := Nat.div_add_mod n d
    have hm := Nat.div_add_mod m d
    rw [hsame] at hn
    have hrest : n % d ≤ m % d := by omega
    unfold roundHalfEven
    dsimp only
    rw [hsame]
    repeat' split
    all_goals omega
  · have hlow := roundHalfEven_le_div_succ n d
    have hhigh := div_le_roundHalfEven m d
    omega

section Place

variable {n d shift : Nat}

theorem shiftLeft_places (d shift : Nat) : d <<< (shift + 52) = exponentUnit * d <<< shift := by
  have hunit : exponentUnit = 2 ^ 52 := by decide
  rw [Nat.shiftLeft_add, Nat.shiftLeft_eq _ 52, hunit, Nat.mul_comm]

/-- A ratio has at most twice `exponentUnit` of the last places that its size asks for. -/
theorem roundHalfEven_le (hd : 0 < d) (h : Nat.log2 (n / d) ≤ shift + 52) :
    roundHalfEven n (d <<< shift) ≤ 2 * exponentUnit := by
  have hquotient : n / d < 2 * 2 ^ (shift + 52) := by
    rw [Nat.mul_comm, ← Nat.pow_succ]
    by_cases hzero : n / d = 0
    · rw [hzero]
      exact Nat.two_pow_pos _
    · exact (Nat.log2_lt hzero).1 (Nat.lt_succ_of_le h)
  have hn : n ≤ 2 * exponentUnit * d <<< shift := by
    rw [Nat.mul_assoc, ← shiftLeft_places, Nat.shiftLeft_eq, Nat.mul_left_comm, Nat.mul_comm]
    exact Nat.le_of_lt ((Nat.div_lt_iff_lt_mul hd).1 hquotient)
  calc roundHalfEven n (d <<< shift)
    _ ≤ roundHalfEven (2 * exponentUnit * d <<< shift) (d <<< shift) :=
        roundHalfEven_le_roundHalfEven hn _
    _ = 2 * exponentUnit := roundHalfEven_mul _ (Nat.shiftLeft_pos_iff.2 hd)

/-- Where places are shifted away, a ratio has at least `exponentUnit` of those that are left. -/
theorem le_roundHalfEven (hd : 0 < d) (h : Nat.log2 (n / d) = shift + 52) :
    exponentUnit ≤ roundHalfEven n (d <<< shift) := by
  have hne : n / d ≠ 0 := by
    intro hzero
    rw [hzero, Nat.log2_zero] at h
    omega
  have hquotient : 2 ^ (shift + 52) ≤ n / d := (Nat.le_log2 hne).1 (Nat.le_of_eq h.symm)
  have hn : exponentUnit * d <<< shift ≤ n := by
    rw [← shiftLeft_places, Nat.shiftLeft_eq, Nat.mul_comm]
    exact (Nat.le_div_iff_mul_le hd).1 hquotient
  calc exponentUnit
    _ = roundHalfEven (exponentUnit * d <<< shift) (d <<< shift) :=
        (roundHalfEven_mul _ (Nat.shiftLeft_pos_iff.2 hd)).symm
    _ ≤ roundHalfEven n (d <<< shift) := roundHalfEven_le_roundHalfEven hn _

end Place

theorem log2_le_log2 {n m : Nat} (h : n ≤ m) : Nat.log2 n ≤ Nat.log2 m := by
  by_cases hzero : n = 0
  · rw [hzero, Nat.log2_zero]
    exact Nat.zero_le _
  · have hlow : 2 ^ Nat.log2 n ≤ n := Nat.log2_self_le hzero
    exact (Nat.le_log2 (by omega)).2 (Nat.le_trans hlow h)

theorem nearestWord_le_nearestWord {n m d : Nat} (hd : 0 < d) (h : n ≤ m) :
    nearestWord n d ≤ nearestWord m d := by
  have hlog : Nat.log2 (n / d) ≤ Nat.log2 (m / d) := log2_le_log2 (Nat.div_le_div_right h)
  unfold nearestWord
  dsimp only
  refine Nat.le_min.2 ⟨Nat.le_trans (Nat.min_le_left _ _) ?_, Nat.min_le_right _ _⟩
  by_cases hsame : Nat.log2 (n / d) - 52 = Nat.log2 (m / d) - 52
  · rw [hsame]
    exact Nat.add_le_add_left (roundHalfEven_le_roundHalfEven h _) _
  · -- the first place of the larger ratio outweighs the whole of the other
    have hlow := @roundHalfEven_le n d (Nat.log2 (n / d) - 52) hd (by omega)
    have hhigh := @le_roundHalfEven m d (Nat.log2 (m / d) - 52) hd (by omega)
    have hstep : (Nat.log2 (n / d) - 52 + 1) * exponentUnit ≤
        (Nat.log2 (m / d) - 52) * exponentUnit := Nat.mul_le_mul_right _ (by omega)
    rw [Nat.add_mul, Nat.one_mul] at hstep
    generalize exponentUnit = unit at *
    omega

theorem rank_ofInt_le {i j : Int} (h : i ≤ j) : (ofInt i).rank ≤ (ofInt j).rank := by
  have hword : ∀ {n m : Nat}, n ≤ m →
      nearestWord (n * unitsOfOne) 1 ≤ nearestWord (m * unitsOfOne) 1 :=
    fun hle => nearestWord_le_nearestWord Nat.one_pos (Nat.mul_le_mul_right _ hle)
  unfold rank ofInt ofRatio
  simp only [decide_eq_true_eq, Int.ofNat_eq_natCast]
  by_cases hi : i < 0
  · by_cases hj : j < 0
    · have hle := @hword j.natAbs i.natAbs (by omega)
      rw [if_pos hi, if_pos hj]
      omega
    · rw [if_pos hi, if_neg hj]
      omega
  · have hle := @hword i.natAbs j.natAbs (by omega)
    rw [if_neg hi, if_neg (by omega)]
    omega

theorem rank_injective {x y : Double} (h : x.rank = y.rank) : x = y := by
  obtain ⟨xnegative, xword, _⟩ := x
  obtain ⟨ynegative, yword, _⟩ := y
  unfold rank at h
  cases xnegative <;> cases ynegative <;>
    simp only [Bool.false_eq_true, if_true, if_false, Int.ofNat_eq_natCast] at h <;>
    simp only [mk.injEq, true_and, reduceCtorEq, false_and] <;> omega

section Exact

variable {n m : Nat}

theorem log2_shiftLeft (hn : n ≠ 0) (k : Nat) : Nat.log2 (n <<< k) = Nat.log2 n + k := by
  have hpos : 0 < n <<< k := Nat.shiftLeft_pos_iff.2 (Nat.pos_of_ne_zero hn)
  have hlow : 2 ^ Nat.log2 n ≤ n := Nat.log2_self_le hn
  have hhigh : n < 2 ^ (Nat.log2 n + 1) := Nat.lt_log2_self
  rw [Nat.log2_eq_iff (Nat.ne_of_gt hpos), Nat.shiftLeft_eq, Nat.add_right_comm, Nat.pow_add,
    Nat.pow_add]
  exact ⟨Nat.mul_le_mul_right _ hlow, Nat.mul_lt_mul_of_pos_right hhigh (Nat.two_pow_pos k)⟩

theorem roundHalfEven_shiftLeft (n a b : Nat) :
    roundHalfEven (n <<< (a + b)) (1 <<< b) = n <<< a := by
  rw [Nat.shiftLeft_add, Nat.shiftLeft_eq _ b, Nat.one_shiftLeft]
  exact roundHalfEven_mul _ (Nat.two_pow_pos b)

/-- The first bit of an integer below 2⁵³, moved to the place of the 52nd. -/
theorem significand_bounds (hn : n ≠ 0) (h : n < 9007199254740992) :
    exponentUnit ≤ n <<< (52 - Nat.log2 n) ∧ n <<< (52 - Nat.log2 n) < 2 * exponentUnit := by
  have hlog : Nat.log2 n ≤ 52 := Nat.le_of_lt_succ ((Nat.log2_lt hn).2 h)
  have hpos : 0 < n <<< (52 - Nat.log2 n) := Nat.shiftLeft_pos_iff.2 (Nat.pos_of_ne_zero hn)
  have hfifty := log2_shiftLeft hn (52 - Nat.log2 n)
  rw [Nat.add_sub_cancel' hlog, Nat.log2_eq_iff (Nat.ne_of_gt hpos)] at hfifty
  exact hfifty

theorem nearestWord_natural (hn : n ≠ 0) (h : n < 9007199254740992) :
    nearestWord (n * unitsOfOne) 1 =
      (Nat.log2 n + 1022) * exponentUnit + n <<< (52 - Nat.log2 n) := by
  have hlog : Nat.log2 n ≤ 52 := Nat.le_of_lt_succ ((Nat.log2_lt hn).2 h)
  have hplaces : 52 - Nat.log2 n + (Nat.log2 n + 1022) = 1074 := by omega
  have hunits : n * unitsOfOne = n <<< 1074 := by
    rw [unitsOfOne, Nat.one_shiftLeft, Nat.shiftLeft_eq]
  have hshift : Nat.log2 (n <<< 1074) - 52 = Nat.log2 n + 1022 := by
    rw [log2_shiftLeft hn]
    omega
  have hround := roundHalfEven_shiftLeft n (52 - Nat.log2 n) (Nat.log2 n + 1022)
  rw [hplaces] at hround
  unfold nearestWord
  dsimp only
  rw [Nat.div_one, hunits, hshift, hround]
  refine Nat.min_eq_left ?_
  have htop : (Nat.log2 n + 1022) * exponentUnit ≤ 1074 * exponentUnit :=
    Nat.mul_le_mul_right _ (by omega)
  have hlarge : 1074 * exponentUnit + 2 * exponentUnit ≤ infinityWord := by decide
  have hbelow := (significand_bounds hn h).2
  omega

theorem nearestWord_natural_lt (h : n < m) (hm : m < 9007199254740992) :
    nearestWord (n * unitsOfOne) 1 < nearestWord (m * unitsOfOne) 1 := by
  have hm0 : m ≠ 0 := Nat.ne_zero_of_lt h
  rw [nearestWord_natural hm0 hm]
  have hhigh := significand_bounds hm0 hm
  have hunit : 0 < exponentUnit := by decide
  by_cases hn : n = 0
  · have hzero : nearestWord 0 1 = 0 := by decide
    rw [hn, Nat.zero_mul, hzero]
    omega
  · have hn' := Nat.lt_trans h hm
    rw [nearestWord_natural hn hn']
    have hlog : Nat.log2 n ≤ Nat.log2 m := log2_le_log2 (Nat.le_of_lt h)
    by_cases hsame : Nat.log2 n = Nat.log2 m
    · rw [hsame, Nat.shiftLeft_eq, Nat.shiftLeft_eq]
      exact Nat.add_lt_add_left (Nat.mul_lt_mul_of_pos_right h (Nat.two_pow_pos _)) _
    · have hstep : (Nat.log2 n + 1022 + 1) * exponentUnit ≤
          (Nat.log2 m + 1022) * exponentUnit := Nat.mul_le_mul_right _ (by omega)
      have hlow := (significand_bounds hn hn').2
      rw [Nat.add_mul _ 1, Nat.one_mul] at hstep
      omega

theorem ofInt_injective {i j : Int} (hi : i.natAbs < 9007199254740992)
    (hj : j.natAbs < 9007199254740992) (h : ofInt i = ofInt j) : i = j := by
  unfold ofInt ofRatio at h
  obtain ⟨hsign, hword⟩ := mk.inj h
  rw [decide_eq_decide] at hsign
  have hsize : i.natAbs = j.natAbs := by
    rcases Nat.lt_trichotomy i.natAbs j.natAbs with hlt | heq | hlt
    · exact absurd hword (Nat.ne_of_lt (nearestWord_natural_lt hlt hj))
    · exact heq
    · exact absurd hword (Nat.ne_of_gt (nearestWord_natural_lt hlt hi))
  omega

end Exact

end RecordQuery.Double
