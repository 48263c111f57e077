import RecordQuery.Proofs.Number.Layout
import RecordQuery.Proofs.Token.Writes

namespace RecordQuery.Token

variable {c : Char} {cs tail : List Char} {l : Lexeme} {isDecimal : Bool}

theorem fraction_append (h : Apart tail) (cs : List Char) :
    fraction (cs ++ tail) = fraction cs := by
  cases cs with
  | nil =>
      cases tail with
      | nil => rfl
      | cons d tail =>
          have hpoint : d ≠ '.' := h.ne d rfl (.inl (by decide))
          rw [List.nil_append, fraction.eq_2 _ fun _ heq => hpoint (List.cons.inj heq).1]
          rfl
  | cons d cs =>
      by_cases hpoint : d = '.'
      · subst hpoint
        rw [List.cons_append, fraction, fraction, takeWhile_append_of_head h.digit]
      · rw [List.cons_append, fraction.eq_2 _ fun _ heq => hpoint (List.cons.inj heq).1,
          fraction.eq_2 _ fun _ heq => hpoint (List.cons.inj heq).1]

theorem fraction_append_drop (cs : List Char) :
    fraction cs ++ cs.drop (fraction cs).length = cs := by
  unfold fraction
  split
  · next cs =>
      dsimp only
      split
      · rfl
      · exact congrArg ('.' :: ·) (takeWhile_append_drop Char.isDigit cs)
  · rfl

theorem exponentDigits_append_drop (cs : List Char) :
    exponentDigits cs ++ cs.drop (exponentDigits cs).length = cs := by
  cases cs with
  | nil => rfl
  | cons c cs =>
      rw [exponentDigits]
      split
      · dsimp only
        split
        · rfl
        · exact congrArg (c :: ·) (takeWhile_append_drop Char.isDigit cs)
      · exact takeWhile_append_drop Char.isDigit (c :: cs)

theorem exponent_append_drop (cs : List Char) :
    exponent cs ++ cs.drop (exponent cs).length = cs := by
  cases cs with
  | nil => rfl
  | cons c cs =>
      rw [exponent]
      split
      · dsimp only
        split
        · rfl
        · exact congrArg (c :: ·) (exponentDigits_append_drop cs)
      · rfl

theorem numeralTail_append_drop (cs : List Char) :
    (numeralTail cs).1 ++ cs.drop (numeralTail cs).1.length = cs := by
  simp only [numeralTail, List.length_append, ← List.drop_drop, List.append_assoc]
  rw [exponent_append_drop, fraction_append_drop, takeWhile_append_drop]

theorem length_fraction_le (cs : List Char) : (fraction cs).length ≤ cs.length :=
  List.IsPrefix.length_le ⟨_, fraction_append_drop cs⟩

theorem length_numeralTail_le (cs : List Char) : (numeralTail cs).1.length ≤ cs.length :=
  List.IsPrefix.length_le ⟨_, numeralTail_append_drop cs⟩

theorem exponentDigits_append (h : Apart tail) (cs : List Char) :
    exponentDigits (cs ++ tail) = exponentDigits cs := by
  have htake : ∀ cs : List Char, (cs ++ tail).takeWhile Char.isDigit = cs.takeWhile Char.isDigit :=
    fun _ => takeWhile_append_of_head h.digit
  cases cs with
  | nil =>
      cases tail with
      | nil => rfl
      | cons d tail =>
          have hsign : ¬ (d = '+' ∨ d = '-') :=
            not_or.2 ⟨h.ne d rfl (.inr (by decide)), h.ne d rfl (.inr (by decide))⟩
          rw [List.nil_append, exponentDigits, exponentDigits, if_neg hsign]
          exact takeWhile_of_head h.digit
  | cons d cs =>
      rw [List.cons_append, exponentDigits, exponentDigits, htake, ← List.cons_append, htake]

theorem exponent_append (h : Apart tail) (cs : List Char) :
    exponent (cs ++ tail) = exponent cs := by
  cases cs with
  | nil =>
      cases tail with
      | nil => rfl
      | cons d tail =>
          have hletter : ¬ (d = 'e' ∨ d = 'E') :=
            not_or.2 ⟨h.ne d rfl (.inl (by decide)), h.ne d rfl (.inl (by decide))⟩
          rw [List.nil_append, exponent, exponent, if_neg hletter]
  | cons d cs => rw [List.cons_append, exponent, exponent, exponentDigits_append h]

theorem numeralTail_append (h : Apart tail) (cs : List Char) :
    numeralTail (cs ++ tail) = numeralTail cs := by
  have hwhole : (cs.takeWhile Char.isDigit).length ≤ cs.length :=
    (List.takeWhile_sublist _).length_le
  have hfraction := length_fraction_le (cs.drop (cs.takeWhile Char.isDigit).length)
  rw [List.length_drop] at hfraction
  unfold numeralTail
  rw [takeWhile_append_of_head h.digit]
  dsimp only
  rw [List.drop_append_of_le_length hwhole, fraction_append h,
    List.drop_append_of_le_length (by omega), exponent_append h]

theorem startsNumeral_append (h : startsNumeral c cs = true) (tail : List Char) :
    startsNumeral c (cs ++ tail) = true := by
  cases cs with
  | nil =>
      have hdigit : c.isDigit = true := by simpa [startsNumeral] using h
      simp [startsNumeral, hdigit]
  | cons d cs => exact h

theorem first_of_startsNumeral (h : startsNumeral c cs = true) :
    c.isDigit = true ∨ c = '-' ∨ c = '+' := by
  simp only [startsNumeral, Bool.or_eq_true, Bool.and_eq_true, decide_eq_true_eq] at h
  rcases h with h | ⟨h, -⟩
  · exact .inl h
  · exact .inr h

theorem isBlank_of_startsNumeral (h : startsNumeral c cs = true) : Text.isBlank c = false := by
  rcases first_of_startsNumeral h with h | rfl | rfl
  · exact isBlank_of_isDigit h
  · decide
  · decide

theorem scan_numeral (hstart : startsNumeral c cs = true)
    (htail : numeralTail cs = (cs, isDecimal)) (hb : Breaks tail) :
    scan c (cs ++ tail) =
      (numeralValue (c :: cs) isDecimal).map fun l => dropTail l c (cs ++ tail) cs.length := by
  have hfirst := first_of_startsNumeral hstart
  have hquote : ¬ (c = '"' ∨ c = '\'') := by
    rintro (rfl | rfl) <;> exact absurd hfirst (by decide)
  have hat : c ≠ '@' := by
    rintro rfl
    exact absurd hfirst (by decide)
  rw [scan, if_neg hquote, if_neg hat, startsNumeral_append hstart, if_pos rfl]
  simp only [numeralTail_append hb.apart, htail]

theorem Writes.numeral (hstart : startsNumeral c cs = true)
    (htail : numeralTail cs = (cs, isDecimal)) (hvalue : numeralValue (c :: cs) isDecimal = .ok l) :
    Writes [l] (c :: cs) := by
  refine .single (isBlank_of_startsNumeral hstart) fun tail hb => ?_
  refine ⟨length_lt_cons_append, ?_⟩
  rw [scan_numeral hstart htail hb]
  simp only [hvalue, Outcome.ok_map, dropTail, List.drop_left]

section Parts

open Number (Parts writeInt writeInt64)

variable {p : Parts} {ds : List Char}

theorem fraction_parts (hp : ∀ c ∈ p.part, c.isDigit = true) {rest : List Char}
    (h : ∀ c, rest.head? = some c → c.isDigit = false ∧ c ≠ '.') :
    fraction (p.fractionText ++ rest) = p.fractionText := by
  by_cases hpart : p.part = []
  · have hnone : p.fractionText = [] := if_pos hpart
    rw [hnone, List.nil_append]
    exact fraction.eq_2 _ fun cs hcs => (h '.' (by rw [hcs]; rfl)).2 rfl
  · have hsome : p.fractionText = '.' :: p.part := if_neg hpart
    rw [hsome, List.cons_append, fraction,
      (Parts.takeWhile_digits hp fun c hc => (h c hc).1).1, if_neg hpart]

theorem numeralTail_append_power (hds : ∀ c ∈ ds, c.isDigit = true)
    (hp : ∀ c ∈ p.part, c.isDigit = true) {power : List Char}
    (h : ∀ c, power.head? = some c → c.isDigit = false ∧ c ≠ '.')
    (hpower : exponent power = power) :
    numeralTail (ds ++ (p.fractionText ++ power)) =
      (ds ++ (p.fractionText ++ power), p.fractionText ≠ [] || power ≠ []) := by
  unfold numeralTail
  rw [(Parts.takeWhile_digits hds (Parts.head_fraction fun c hc => (h c hc).1)).1]
  dsimp only
  rw [List.drop_left, fraction_parts hp h, ← List.drop_drop, List.drop_left, List.drop_left,
    hpower, List.append_assoc]

theorem exponentDigits_writeInt (e : Int) : exponentDigits (writeInt e) = writeInt e := by
  have hall : ∀ c ∈ Nat.toDigits 10 e.natAbs, c.isDigit = true := fun c hc =>
    Nat.isDigit_of_mem_toDigits (by decide) (by decide) hc
  unfold writeInt
  split
  · rw [exponentDigits, if_pos (.inr rfl)]
    dsimp only
    rw [List.takeWhile_eq_self_iff.2 hall, if_neg Nat.toDigits_ne_nil]
  · cases hcs : Nat.toDigits 10 e.natAbs with
    | nil => exact absurd hcs Nat.toDigits_ne_nil
    | cons c cs =>
        rw [hcs] at hall
        have hsign : ¬ (c = '+' ∨ c = '-') := by
          rintro (rfl | rfl) <;> exact absurd (hall _ List.mem_cons_self) (by decide)
        rw [exponentDigits, if_neg hsign, List.takeWhile_eq_self_iff.2 hall]

theorem exponent_parts (p : Parts) : exponent p.exponentText = p.exponentText := by
  unfold Parts.exponentText
  split
  · rfl
  · next e _ =>
      have hne : writeInt e ≠ [] := by
        unfold writeInt
        split
        · exact List.cons_ne_nil _ _
        · exact Nat.toDigits_ne_nil
      rw [exponent, if_pos (.inl rfl)]
      dsimp only
      rw [exponentDigits_writeInt, if_neg hne]

theorem numeralTail_parts (hds : ∀ c ∈ ds, c.isDigit = true)
    (h : ∀ c ∈ p.part, c.isDigit = true) :
    numeralTail (ds ++ (p.fractionText ++ p.exponentText)) =
      (ds ++ (p.fractionText ++ p.exponentText),
        p.fractionText ≠ [] || p.exponentText ≠ []) :=
  numeralTail_append_power hds h Parts.head_exponentText (exponent_parts p)

theorem isDecimal_parts (h : p.IsDecimal) :
    (p.fractionText ≠ [] || p.exponentText ≠ [] : Bool) = true := by
  rcases h with hpart | hexp
  · have hsome : p.fractionText = '.' :: p.part := if_neg hpart
    rw [hsome]
    rfl
  · obtain ⟨e, he⟩ := Option.ne_none_iff_exists'.1 hexp
    have hsome : p.exponentText = 'e' :: writeInt e := by rw [Parts.exponentText, he]
    rw [hsome, Bool.or_eq_true_iff]
    exact .inr rfl

theorem Writes.parts (hp : p.Valid) (negative : Bool)
    (hvalue : numeralValue ((if negative then ['-'] else []) ++ p.text)
      (p.fractionText ≠ [] || p.exponentText ≠ []) = .ok l) :
    Writes [l] ((if negative then ['-'] else []) ++ p.text) := by
  obtain ⟨d, rest, htext, hd⟩ := Parts.head_text hp
  cases negative with
  | true =>
      refine .numeral (c := '-') ?_ (numeralTail_parts hp.whole hp.part) hvalue
      simp [startsNumeral, htext, hd]
  | false =>
      obtain ⟨c, cs, hcs⟩ := List.exists_cons_of_ne_nil hp.ne_nil
      have hall := hp.whole
      rw [hcs, List.forall_mem_cons] at hall
      have hsplit : p.text = c :: (cs ++ (p.fractionText ++ p.exponentText)) := by
        rw [Parts.text, hcs, List.cons_append]
      simp only [Bool.false_eq_true, if_false, List.nil_append] at hvalue ⊢
      rw [hsplit] at hvalue ⊢
      refine .numeral ?_ (numeralTail_parts hall.2 hp.part) hvalue
      simp [startsNumeral, hall.1]

theorem Writes.decimal {x : Double} {layout : Double.Layout} (h : x.isFinite = true)
    (hpoint : layout.pointAlways = true) (hplus : layout.plusSign = false) :
    Writes [.decimal x] (x.text layout) := by
  obtain ⟨p, hp, hdecimal, htext, hread⟩ := Double.exists_parts_text h hpoint hplus
  rw [htext]
  refine .parts hp x.negative ?_
  rw [numeralValue, isDecimal_parts hdecimal, if_pos rfl]
  cases hnegative : x.negative with
  | true =>
      rw [hnegative] at hread
      have hvalue := (Parts.read?_text hp).2
      rw [hread] at hvalue
      simp only [if_true, List.singleton_append, hvalue]
  | false =>
      rw [hnegative] at hread
      have hvalue := (Parts.read?_text hp).1
      rw [hread] at hvalue
      simp only [Bool.false_eq_true, if_false, List.nil_append, hvalue]

theorem Writes.int (i : Int64) : Writes [.int i] (writeInt64 i) := by
  have hall : ∀ c ∈ Nat.toDigits 10 i.toInt.natAbs, c.isDigit = true := fun c hc =>
    Nat.isDigit_of_mem_toDigits (by decide) (by decide) hc
  have hvalid : Parts.Valid ⟨Nat.toDigits 10 i.toInt.natAbs, [], none⟩ :=
    ⟨Nat.toDigits_ne_nil, hall, by simp⟩
  have htext : writeInt64 i = (if decide (i.toInt < 0) then ['-'] else []) ++
      Parts.text ⟨Nat.toDigits 10 i.toInt.natAbs, [], none⟩ := by
    unfold writeInt64 writeInt Parts.text Parts.fractionText Parts.exponentText
    by_cases hsign : i.toInt < 0 <;> simp [hsign]
  rw [htext]
  refine .parts hvalid _ ?_
  rw [← htext]
  simp [numeralValue, Parts.fractionText, Parts.exponentText, Number.readInt64?_writeInt64]

end Parts

end RecordQuery.Token
