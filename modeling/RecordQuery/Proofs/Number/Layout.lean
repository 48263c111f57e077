import RecordQuery.Proofs.Number.Parts

namespace RecordQuery.Double

open Number (Parts)

/-- The text is a decimal numeral with the nearest number of the decimal. -/
def Spells (d : Decimal) (cs : List Char) : Prop :=
  ∃ p : Parts, p.Valid ∧ p.IsDecimal ∧ cs = p.text ∧ (p.value d.negative).toDouble = d.toDouble

variable {l : Layout} {negative : Bool} {ds : List Char} {size : Int}

theorem zeros_isDigit (n : Nat) : ∀ c ∈ List.replicate n '0', c.isDigit = true := by
  intro c hc
  rw [List.eq_of_mem_replicate hc]
  decide

theorem exists_significant (ds : List Char) :
    ∃ z, ds = Layout.significant ds ++ List.replicate z '0' := by
  refine ⟨(ds.reverse.takeWhile (· = '0')).length, ?_⟩
  have hzeros : ds.reverse.takeWhile (· = '0') =
      List.replicate (ds.reverse.takeWhile (· = '0')).length '0' := by
    refine List.eq_replicate_iff.2 ⟨rfl, fun c hc => ?_⟩
    simpa using List.all_eq_true.1 List.all_takeWhile c hc
  have hsplit := List.takeWhile_append_dropWhile (p := (· = '0')) (l := ds.reverse)
  rw [hzeros] at hsplit
  have hreverse := congrArg List.reverse hsplit
  rw [List.reverse_append, List.reverse_replicate, List.reverse_reverse] at hreverse
  exact hreverse.symm

theorem spells_point {d : Decimal} {whole part : List Char} (hne : whole ≠ [])
    (hwhole : ∀ c ∈ whole, c.isDigit = true) (hpartne : part ≠ [])
    (hpart : ∀ c ∈ part, c.isDigit = true)
    (hd : Decimal.toDouble ⟨d.negative, Nat.ofDigitChars 10 (whole ++ part) 0, -part.length⟩ =
      d.toDouble) : Spells d (whole ++ '.' :: part) := by
  refine ⟨⟨whole, part, none⟩, ⟨hne, hwhole, hpart⟩, .inl hpartne, ?_, ?_⟩
  · simp [Parts.text, Parts.fractionText, Parts.exponentText, hpartne]
  · rw [← hd, Parts.value, Option.getD_none, Int.zero_sub]

section Digits

variable (hds : ∀ c ∈ ds, c.isDigit = true) (hvalue : Nat.ofDigitChars 10 ds 0 ≠ 0)

include hvalue in
theorem ne_nil_of_value : ds ≠ [] := by
  rintro rfl
  exact hvalue rfl

include hds hvalue

theorem spells_below_one (hsize : size ≤ 0) :
    Spells ⟨negative, Nat.ofDigitChars 10 ds 0, size - ds.length⟩
      ('0' :: '.' :: (List.replicate (-size).toNat '0' ++ ds)) := by
  refine @spells_point _ ['0'] _ (by simp) (by simp)
    (List.append_ne_nil_of_right_ne_nil _ (ne_nil_of_value hvalue)) ?_ ?_
  · intro c hc
    rcases List.mem_append.1 hc with hc | hc
    · exact zeros_isDigit _ c hc
    · exact hds c hc
  · have hdigits : Nat.ofDigitChars 10 (['0'] ++ (List.replicate (-size).toNat '0' ++ ds)) 0 =
        Nat.ofDigitChars 10 ds 0 := by
      simp [Nat.ofDigitChars_append, Nat.ofDigitChars_cons]
    have hexp : -((List.replicate (-size).toNat '0' ++ ds).length : Int) = size - ds.length := by
      simp only [List.length_append, List.length_replicate]
      omega
    rw [hdigits, hexp]

theorem spells_whole (hlength : ds.length ≤ size.toNat) (hsize : 0 < size) :
    Spells ⟨negative, Nat.ofDigitChars 10 ds 0, size - ds.length⟩
      (ds ++ List.replicate (size.toNat - ds.length) '0' ++ ['.', '0']) := by
  have hne := ne_nil_of_value hvalue
  refine spells_point (List.append_ne_nil_of_left_ne_nil hne _) ?_ (by simp) (by simp) ?_
  · intro c hc
    rcases List.mem_append.1 hc with hc | hc
    · exact hds c hc
    · exact zeros_isDigit _ c hc
  · have hdigits : Nat.ofDigitChars 10
        (ds ++ List.replicate (size.toNat - ds.length) '0' ++ ['0']) 0 =
          Nat.ofDigitChars 10 ds 0 * Nat.pow 10 (size.toNat - ds.length + 1) := by
      rw [List.append_assoc, ← List.replicate_succ', Nat.ofDigitChars_append,
        Nat.ofDigitChars_replicate_zero, Nat.mul_comm]
      rfl
    have hexp : -(['0'].length : Int) =
        size - ds.length - (size.toNat - ds.length + 1 : Nat) := by
      simp only [List.length_singleton]
      omega
    rw [hdigits, hexp, Decimal.toDouble_trailing _ hvalue]

theorem spells_between (hlength : size.toNat < ds.length) (hsize : 0 < size) :
    Spells ⟨negative, Nat.ofDigitChars 10 ds 0, size - ds.length⟩
      (ds.take size.toNat ++ '.' :: ds.drop size.toNat) := by
  have hne := ne_nil_of_value hvalue
  refine spells_point ?_ (fun c hc => hds c (List.mem_of_mem_take hc)) ?_
    (fun c hc => hds c (List.mem_of_mem_drop hc)) ?_
  · simp only [ne_eq, List.take_eq_nil_iff, hne, or_false]
    omega
  · simp only [ne_eq, List.drop_eq_nil_iff]
    omega
  · have hexp : -((ds.drop size.toNat).length : Int) = size - ds.length := by
      rw [List.length_drop]
      omega
    rw [List.take_append_drop, hexp]

theorem spells_place (hpoint : l.pointAlways = true) :
    Spells ⟨negative, Nat.ofDigitChars 10 ds 0, size - ds.length⟩ (l.place ds size) := by
  unfold Layout.place
  split
  · next hsize => exact spells_below_one hds hvalue hsize
  · next hsize =>
      split
      · next hlength =>
          exact spells_whole hds hvalue hlength (by omega)
      · next hlength => exact spells_between hds hvalue (by omega) (by omega)

theorem spells_scale (hplus : l.plusSign = false) :
    Spells ⟨negative, Nat.ofDigitChars 10 ds 0, size - ds.length⟩ (l.scale ds size) := by
  have hne := ne_nil_of_value hvalue
  have hsplit : ds.take 1 ++ ds.tail = ds := by rw [← List.drop_one, List.take_append_drop]
  have hlength : ds.tail.length + 1 = ds.length := by
    rw [List.length_tail]
    have := List.length_pos_iff.2 hne
    omega
  refine ⟨⟨ds.take 1, ds.tail, some (size - 1)⟩, ⟨by simpa using hne, ?_, ?_⟩, .inr (by simp),
    ?_, ?_⟩
  · exact fun c hc => hds c (List.mem_of_mem_take hc)
  · exact fun c hc => hds c (List.mem_of_mem_tail hc)
  · simp [Layout.scale, Parts.text, Parts.fractionText, Parts.exponentText, hplus]
  · have hexp : size - 1 - (ds.tail.length : Int) = size - ds.length := by omega
    rw [Parts.value, hsplit, Option.getD_some, hexp]

end Digits

theorem spells_magnitude {d : Decimal} (hpoint : l.pointAlways = true)
    (hplus : l.plusSign = false) (hd : d.digits ≠ 0) : Spells d (l.magnitude d) := by
  obtain ⟨z, hz⟩ := exists_significant (Nat.toDigits 10 d.digits)
  have hall : ∀ c ∈ Layout.significant (Nat.toDigits 10 d.digits), c.isDigit = true := by
    intro c hc
    refine Nat.isDigit_of_mem_toDigits (b := 10) (n := d.digits) (by decide) (by decide) ?_
    rw [hz]
    exact List.mem_append_left _ hc
  have hlength := congrArg List.length hz
  rw [List.length_append, List.length_replicate] at hlength
  have hdigits : d.digits = Nat.ofDigitChars 10
      (Layout.significant (Nat.toDigits 10 d.digits)) 0 * Nat.pow 10 z := by
    have hvalue := congrArg (Nat.ofDigitChars 10 · 0) hz
    simp only [Nat.ofDigitChars_ten_toDigits, Nat.ofDigitChars_append,
      Nat.ofDigitChars_replicate_zero] at hvalue
    exact hvalue.trans (Nat.mul_comm _ _)
  unfold Layout.magnitude
  dsimp only
  generalize Layout.significant (Nat.toDigits 10 d.digits) = ds at *
  generalize hsize : d.exponent + ((Nat.toDigits 10 d.digits).length : Int) = size
  have hvalue : Nat.ofDigitChars 10 ds 0 ≠ 0 := by
    intro hzero
    rw [hzero, Nat.zero_mul] at hdigits
    exact hd hdigits
  have hsame : Decimal.toDouble ⟨d.negative, Nat.ofDigitChars 10 ds 0, size - ds.length⟩ =
      d.toDouble := by
    have hexp : d.exponent = size - ds.length - z := by omega
    rw [← Decimal.toDouble_trailing d.negative hvalue (size - ds.length) z, ← hdigits, ← hexp]
  have hspells : Spells ⟨d.negative, Nat.ofDigitChars 10 ds 0, size - ds.length⟩
      (if l.positional size then l.place ds size else l.scale ds size) := by
    split
    · exact spells_place hall hvalue hpoint
    · exact spells_scale hall hvalue hplus
  obtain ⟨p, hvalid, hdecimal, htext, hread⟩ := hspells
  exact ⟨p, hvalid, hdecimal, htext, hread.trans hsame⟩

theorem negative_toDouble (d : Decimal) : d.toDouble.negative = d.negative := by
  unfold Decimal.toDouble
  dsimp only
  repeat' split
  all_goals rfl

theorem digits_shortest_ne_zero {x : Double} (h : x.isFinite = true) (hzero : x.word ≠ 0)
    (tie : Tie) : (x.shortest tie).digits ≠ 0 := by
  intro hdigits
  have hread := toDouble_shortest h hzero tie
  rw [Decimal.toDouble] at hread
  rw [if_pos hdigits] at hread
  exact hzero (congrArg Double.word hread).symm

theorem exists_parts_text {x : Double} (h : x.isFinite = true) (hpoint : l.pointAlways = true)
    (hplus : l.plusSign = false) : ∃ p : Parts, p.Valid ∧ p.IsDecimal ∧
      x.text l = (if x.negative then ['-'] else []) ++ p.text ∧
      (p.value x.negative).toDouble = x := by
  have hlt : x.word < infinityWord := of_decide_eq_true h
  have hnan : x.isNaN = false := decide_eq_false (by omega)
  have hinfinite : x.isInfinite = false := decide_eq_false (by omega)
  unfold text
  dsimp only
  rw [hnan, hinfinite, if_neg Bool.false_ne_true, if_neg Bool.false_ne_true]
  split
  · next hzero =>
      refine ⟨⟨['0'], ['0'], none⟩, ⟨by simp, by simp, by simp⟩, .inl (by simp), ?_, ?_⟩
      · rw [Layout.zero, if_pos hpoint]
        rfl
      · change zero x.negative = x
        obtain ⟨negative, word, hword⟩ := x
        subst hzero
        rfl
  · next hzero =>
      have hread := toDouble_shortest h hzero l.tie
      obtain ⟨p, hvalid, hdecimal, htext, hvalue⟩ :=
        spells_magnitude hpoint hplus (digits_shortest_ne_zero h hzero l.tie)
      have hsign : (x.shortest l.tie).negative = x.negative := by
        rw [← negative_toDouble, hread]
      rw [hsign, hread] at hvalue
      exact ⟨p, hvalid, hdecimal, by rw [htext], hvalue⟩

end RecordQuery.Double
