import RecordQuery.Number.Shortest
import RecordQuery.Proofs.Number.Rounding

namespace RecordQuery.Decimal

theorem digitCount_of_ne_zero {n : Nat} (h : n ≠ 0) : digitCount n = (Nat.toDigits 10 n).length :=
  if_neg h

theorem digitCount_le_iff {n k : Nat} (h : n ≠ 0) : digitCount n ≤ k ↔ n < Nat.pow 10 k := by
  rw [digitCount_of_ne_zero h]
  cases k with
  | zero =>
      have hpos : 0 < (Nat.toDigits 10 n).length := Nat.length_toDigits_pos
      have hone : Nat.pow 10 0 = 1 := rfl
      omega
  | succ k => exact Nat.length_toDigits_le_iff (by decide) (Nat.succ_pos k)

theorem digitCount_mul_pow {n : Nat} (h : n ≠ 0) (j : Nat) :
    digitCount (n * Nat.pow 10 j) = digitCount n + j := by
  have hpow : 0 < Nat.pow 10 j := Nat.pow_pos (by decide)
  have hne : n * Nat.pow 10 j ≠ 0 := Nat.mul_ne_zero h (Nat.pos_iff_ne_zero.1 hpow)
  have hle : ∀ k, digitCount (n * Nat.pow 10 j) ≤ k + j ↔ digitCount n ≤ k := fun k => by
    have hadd : Nat.pow 10 (k + j) = Nat.pow 10 k * Nat.pow 10 j := Nat.pow_add 10 k j
    rw [digitCount_le_iff hne, digitCount_le_iff h, hadd]
    exact Nat.mul_lt_mul_right hpow
  have hj : j ≤ digitCount (n * Nat.pow 10 j) := by
    refine Nat.le_of_not_lt fun hlt => ?_
    have hsmall := (digitCount_le_iff hne).1 (Nat.le_of_lt hlt)
    have hlarge : Nat.pow 10 j ≤ n * Nat.pow 10 j :=
      Nat.le_mul_of_pos_left _ (Nat.pos_of_ne_zero h)
    omega
  obtain ⟨k, hk⟩ := Nat.exists_eq_add_of_le' hj
  have hupper := (hle (digitCount n)).2 (Nat.le_refl _)
  have hlower := (hle k).1 (Nat.le_of_eq hk)
  omega

theorem toDouble_eq_ofRatio {d : Decimal} {a b : Nat} (hd : d.digits ≠ 0)
    (hlow : -330 ≤ d.exponent + digitCount d.digits)
    (hhigh : d.exponent + digitCount d.digits ≤ 310) (hexp : d.exponent = (a : Int) - b) :
    d.toDouble = .ofRatio d.negative (d.digits * Nat.pow 10 a) (Nat.pow 10 b) := by
  have hpow : ∀ k, 0 < Nat.pow 10 k := fun _ => Nat.pow_pos (by decide)
  unfold toDouble
  dsimp only
  rw [if_neg hd, if_neg (by omega), if_neg (by omega)]
  split
  · next hsign =>
      have ha : Nat.pow 10 a = Nat.pow 10 d.exponent.toNat * Nat.pow 10 b := by
        have hsum : a = d.exponent.toNat + b := by omega
        exact (congrArg (Nat.pow 10) hsum).trans (Nat.pow_add 10 _ b)
      have hscale := Double.ofRatio_mul_right d.negative (d.digits * Nat.pow 10 d.exponent.toNat) 1
        (hpow b)
      rw [ha, ← Nat.mul_assoc, ← hscale, Nat.one_mul]
  · next hsign =>
      have hb : Nat.pow 10 b = Nat.pow 10 (-d.exponent).toNat * Nat.pow 10 a := by
        have hsum : b = (-d.exponent).toNat + a := by omega
        exact (congrArg (Nat.pow 10) hsum).trans (Nat.pow_add 10 _ a)
      rw [hb, Double.ofRatio_mul_right _ _ _ (hpow a)]

theorem toDouble_trailing (negative : Bool) {n : Nat} (hn : n ≠ 0) (e : Int) (j : Nat) :
    toDouble ⟨negative, n * Nat.pow 10 j, e - j⟩ = toDouble ⟨negative, n, e⟩ := by
  have hpow : 0 < Nat.pow 10 j := Nat.pow_pos (by decide)
  have hne : n * Nat.pow 10 j ≠ 0 := Nat.mul_ne_zero hn (Nat.pos_iff_ne_zero.1 hpow)
  have hsize : e - j + (digitCount (n * Nat.pow 10 j) : Int) = e + digitCount n := by
    rw [digitCount_mul_pow hn]
    omega
  by_cases hrange : -330 ≤ e + (digitCount n : Int) ∧ e + (digitCount n : Int) ≤ 310
  · obtain ⟨hlow, hhigh⟩ := hrange
    obtain ⟨a, b, hexp⟩ : ∃ a b : Nat, e = (a : Int) - b := ⟨e.toNat, (-e).toNat, by omega⟩
    have hshort := toDouble_eq_ofRatio (d := ⟨negative, n, e⟩) hn hlow hhigh hexp
    have hlong := toDouble_eq_ofRatio (d := ⟨negative, n * Nat.pow 10 j, e - j⟩) (a := a)
      (b := b + j) hne (by simpa only [hsize] using hlow) (by simpa only [hsize] using hhigh)
      (by simp only; omega)
    have hpow' : Nat.pow 10 (b + j) = Nat.pow 10 b * Nat.pow 10 j := Nat.pow_add 10 b j
    rw [hshort, hlong, hpow', Nat.mul_right_comm, Double.ofRatio_mul_right _ _ _ hpow]
  · unfold toDouble
    dsimp only
    rw [hsize, if_neg hn, if_neg hne]
    split
    · rfl
    · split
      · rfl
      · omega

section Scaled

variable {negative : Bool} {n k : Nat}

/-- The exact decimal of so many units of `2 ^ (-k)`. -/
def scaled (negative : Bool) (n k : Nat) : Decimal := ⟨negative, n * Nat.pow 5 k, -k⟩

theorem digits_scaled_ne_zero (h : n ≠ 0) : (scaled negative n k).digits ≠ 0 :=
  Nat.mul_ne_zero h (Nat.pos_iff_ne_zero.1 (Nat.pow_pos (by decide)))

theorem lt_digitCount_scaled (negative : Bool) {m : Nat} (h : n ≠ 0)
    (hpow : Nat.pow 10 m ≤ Nat.pow 5 k) :
    m < digitCount (scaled negative n k).digits := by
  refine Nat.lt_of_not_le fun hle => ?_
  have hsmall := (digitCount_le_iff (digits_scaled_ne_zero h)).1 hle
  have hlarge : Nat.pow 5 k ≤ n * Nat.pow 5 k := Nat.le_mul_of_pos_left _ (Nat.pos_of_ne_zero h)
  exact absurd (Nat.le_trans hpow hlarge) (Nat.not_le.2 hsmall)

theorem digitCount_scaled_le (negative : Bool) {m : Nat} (h : n ≠ 0)
    (hn : n < Nat.pow 10 m * Nat.pow 2 k) :
    digitCount (scaled negative n k).digits ≤ m + k := by
  refine (digitCount_le_iff (digits_scaled_ne_zero h)).2 ?_
  have hadd : Nat.pow 10 (m + k) = Nat.pow 10 m * Nat.pow 2 k * Nat.pow 5 k := by
    have hten : Nat.pow 10 k = Nat.pow 2 k * Nat.pow 5 k := Nat.mul_pow 2 5 k
    rw [Nat.mul_assoc, ← hten]
    exact Nat.pow_add 10 m k
  rw [hadd]
  exact Nat.mul_lt_mul_of_pos_right hn (Nat.pow_pos (by decide))

theorem toDouble_scaled {m j : Nat} (h : n ≠ 0) (hk : k ≤ m + 331) (hj : j ≤ 310)
    (hpow : Nat.pow 10 m ≤ Nat.pow 5 k) (hn : n < Nat.pow 10 j * Nat.pow 2 k) :
    (scaled negative n k).toDouble = .ofRatio negative n (Nat.pow 2 k) := by
  have hlow := lt_digitCount_scaled negative h hpow
  have hhigh := digitCount_scaled_le negative h hn
  have hexp : (scaled negative n k).exponent = -k := rfl
  have hratio := toDouble_eq_ofRatio (d := scaled negative n k) (a := 0) (b := k)
    (digits_scaled_ne_zero h) (by omega) (by omega) (by omega)
  have hone : Nat.pow 10 0 = 1 := rfl
  have hten : Nat.pow 10 k = Nat.pow 2 k * Nat.pow 5 k := Nat.mul_pow 2 5 k
  rw [hratio, hone, Nat.mul_one, hten]
  exact Double.ofRatio_mul_right _ _ _ (Nat.pow_pos (by decide))

end Scaled

end RecordQuery.Decimal

namespace RecordQuery.Double

theorem unitsOfWord_ne_zero {word : Nat} (h : word ≠ 0) : unitsOfWord word ≠ 0 := by
  have hsplit := Nat.div_add_mod word exponentUnit
  unfold unitsOfWord
  dsimp only
  split
  · next hfield =>
      rw [hfield] at hsplit
      omega
  · have hsignificand : 0 < exponentUnit + word % exponentUnit :=
      Nat.add_pos_left (by decide) _
    rw [Nat.shiftLeft_eq]
    exact Nat.pos_iff_ne_zero.1 (Nat.mul_pos hsignificand (Nat.two_pow_pos _))

theorem unitsOfWord_lt {word top : Nat} (h : word / exponentUnit ≤ top + 1) :
    unitsOfWord word < Nat.pow 2 53 * Nat.pow 2 top := by
  have hfraction : word % exponentUnit < exponentUnit := Nat.mod_lt _ (by decide)
  have hunit : exponentUnit + exponentUnit = Nat.pow 2 53 := by decide
  have hone : Nat.pow 2 53 ≤ Nat.pow 2 53 * Nat.pow 2 top :=
    Nat.le_mul_of_pos_right _ (Nat.pow_pos (by decide))
  unfold unitsOfWord
  dsimp only
  split
  · omega
  · rw [Nat.shiftLeft_eq]
    exact Nat.mul_lt_mul_of_lt_of_le (by omega) (Nat.pow_le_pow_right (by decide) (by omega))
      (Nat.two_pow_pos _)

variable {x : Double}

theorem field_le (h : x.isFinite = true) : x.word / exponentUnit ≤ 2045 + 1 := by
  have hlt : x.word < infinityWord := of_decide_eq_true h
  unfold infinityWord at hlt
  unfold exponentUnit
  omega

theorem toDouble_scaled_units {top m j k : Nat} (hzero : x.word ≠ 0)
    (hfield : x.word / exponentUnit ≤ top + 1) (hk : k ≤ m + 331) (hj : j ≤ 310)
    (hpow : Nat.pow 10 m ≤ Nat.pow 5 k)
    (hrange : Nat.pow 2 53 * Nat.pow 2 top ≤ Nat.pow 10 j * Nat.pow 2 k) :
    (Decimal.scaled x.negative x.units k).toDouble = ofRatio x.negative x.units (1 <<< k) := by
  have hunits : x.units < Nat.pow 10 j * Nat.pow 2 k :=
    Nat.lt_of_lt_of_le (unitsOfWord_lt hfield) hrange
  have hone : 1 <<< k = Nat.pow 2 k := Nat.one_shiftLeft k
  rw [hone]
  exact Decimal.toDouble_scaled (unitsOfWord_ne_zero hzero) hk hj hpow hunits

theorem expansion_eq_scaled (x : Double) {k : Nat} (hk : k = 1074) :
    x.expansion = Decimal.scaled x.negative x.units k := by
  unfold expansion Decimal.scaled
  rw [← hk]
  subst hk
  rfl

theorem toDouble_expansion (h : x.isFinite = true) (hzero : x.word ≠ 0) :
    x.expansion.toDouble = x := by
  -- As variables the large exponents are not worked out before the kernel compares the powers.
  obtain ⟨k, hk⟩ : ∃ k, k = 1074 := ⟨1074, rfl⟩
  obtain ⟨top, htop⟩ : ∃ top, top = 2045 := ⟨2045, rfl⟩
  have hpow : Nat.pow 10 743 ≤ Nat.pow 5 k := by
    rw [hk]
    decide +kernel
  have hrange : Nat.pow 2 53 * Nat.pow 2 top ≤ Nat.pow 10 310 * Nat.pow 2 k := by
    rw [hk, htop]
    decide +kernel
  have hfield : x.word / exponentUnit ≤ top + 1 := by
    rw [htop]
    exact field_le h
  have hone : 1 <<< k = unitsOfOne := by rw [hk, unitsOfOne]
  rw [expansion_eq_scaled x hk, toDouble_scaled_units hzero hfield (by omega) (by decide) hpow
    hrange, hone, ofRatio_units x h]

theorem toDouble_shortest (h : x.isFinite = true) (hzero : x.word ≠ 0) (tie : Tie) :
    (x.shortest tie).toDouble = x := by
  unfold shortest
  cases hfind : (x.candidates tie).find? fun d => d.toDouble = x with
  | none => exact toDouble_expansion h hzero
  | some d =>
      have hread := List.find?_some hfind
      simpa using hread

end RecordQuery.Double
