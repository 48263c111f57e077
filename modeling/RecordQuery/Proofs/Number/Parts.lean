import RecordQuery.Proofs.Number.Scaling

namespace RecordQuery

namespace Number

structure Parts where
  whole : List Char
  part : List Char
  exponent : Option Int

namespace Parts

def fractionText (p : Parts) : List Char := if p.part = [] then [] else '.' :: p.part

def exponentText (p : Parts) : List Char :=
  match p.exponent with
  | none => []
  | some e => 'e' :: writeInt e

def text (p : Parts) : List Char := p.whole ++ (p.fractionText ++ p.exponentText)

def value (negative : Bool) (p : Parts) : Decimal :=
  ⟨negative, Nat.ofDigitChars 10 (p.whole ++ p.part) 0, p.exponent.getD 0 - p.part.length⟩

structure Valid (p : Parts) : Prop where
  ne_nil : p.whole ≠ []
  whole : ∀ c ∈ p.whole, c.isDigit = true
  part : ∀ c ∈ p.part, c.isDigit = true

def IsDecimal (p : Parts) : Prop := p.part ≠ [] ∨ p.exponent ≠ none

variable {p : Parts}

theorem takeWhile_digits {ds rest : List Char} (hds : ∀ c ∈ ds, c.isDigit = true)
    (hrest : ∀ c, rest.head? = some c → c.isDigit = false) :
    (ds ++ rest).takeWhile Char.isDigit = ds ∧ (ds ++ rest).dropWhile Char.isDigit = rest := by
  rw [List.takeWhile_append_of_pos hds, List.dropWhile_append_of_pos hds]
  cases rest with
  | nil => simp
  | cons c rest => simp [hrest c rfl]

theorem head_exponentText (c : Char) (h : p.exponentText.head? = some c) :
    c.isDigit = false ∧ c ≠ '.' := by
  unfold exponentText at h
  split at h
  · cases h
  · cases h
    decide

theorem head_fraction {rest : List Char} (hrest : ∀ c, rest.head? = some c → c.isDigit = false)
    (c : Char) (h : (p.fractionText ++ rest).head? = some c) : c.isDigit = false := by
  unfold fractionText at h
  split at h
  · exact hrest c h
  · cases h
    decide

theorem readExponent?_exponentText (p : Parts) :
    Decimal.readExponent? p.exponentText = some (p.exponent.getD 0) := by
  unfold exponentText
  split
  · next h => rw [h]; rfl
  · next e h => rw [h, Decimal.readExponent?, if_pos (.inl rfl), readInt?_writeInt, Option.getD]

theorem digits?_whole_part (h : p.Valid) :
    digits? (p.whole ++ p.part) = some (Nat.ofDigitChars 10 (p.whole ++ p.part) 0) := by
  have hall : (p.whole ++ p.part).all Char.isDigit = true := by
    simpa [or_imp, forall_and] using And.intro h.whole h.part
  exact if_pos ⟨List.append_ne_nil_of_left_ne_nil h.ne_nil _, hall⟩

theorem readUnsigned?_append (h : p.Valid) {rest : List Char} {e : Int}
    (hrest : ∀ c, rest.head? = some c → c.isDigit = false ∧ c ≠ '.')
    (hexponent : Decimal.readExponent? rest = some e) (negative : Bool) :
    Decimal.readUnsigned? negative (p.whole ++ (p.fractionText ++ rest)) =
      some ⟨negative, Nat.ofDigitChars 10 (p.whole ++ p.part) 0, e - p.part.length⟩ := by
  have hdigit : ∀ c, rest.head? = some c → c.isDigit = false := fun c hc => (hrest c hc).1
  obtain ⟨htake, hdrop⟩ := takeWhile_digits h.whole (head_fraction hdigit)
  have hdigits := digits?_whole_part h
  unfold Decimal.readUnsigned?
  rw [htake, hdrop]
  by_cases hpart : p.part = []
  · have hnone : p.fractionText = [] := if_pos hpart
    rw [hpart, List.append_nil] at hdigits
    rw [hnone, List.nil_append]
    cases rest with
    | nil => simp only [hdigits, hexponent, hpart, List.append_nil]
    | cons c rest =>
        have hpoint : c ≠ '.' := (hrest c rfl).2
        simp [hpoint, hdigits, hexponent, hpart]
  · have hsome : p.fractionText = '.' :: p.part := if_neg hpart
    obtain ⟨htake', hdrop'⟩ := takeWhile_digits h.part hdigit
    rw [hsome, List.cons_append]
    simp only [htake', hdrop', hdigits, hexponent]

theorem readUnsigned?_text (h : p.Valid) (negative : Bool) :
    Decimal.readUnsigned? negative p.text = some (p.value negative) :=
  readUnsigned?_append h head_exponentText
    (readExponent?_exponentText p) negative

theorem head_text (h : p.Valid) : ∃ c rest, p.text = c :: rest ∧ c.isDigit = true := by
  obtain ⟨c, cs, hc⟩ := List.exists_cons_of_ne_nil h.ne_nil
  refine ⟨c, cs ++ (p.fractionText ++ p.exponentText), ?_, h.whole c (by simp [hc])⟩
  rw [text, hc, List.cons_append]

theorem ne_word_of_digit {c : Char} (cs : List Char) (h : c.isDigit = true) {w : String}
    (hw : w.toList.head? = some 'i' ∨ w.toList.head? = some 'n') :
    String.ofList ((c :: cs).map Char.toLower) ≠ w := by
  rintro rfl
  have hupper : ¬ (c.val ≥ 'A'.val ∧ c.val ≤ 'Z'.val) := by
    have hlast : c.val.toNat ≤ 0x39 := (Char.isDigit_iff_toNat.1 h).2
    rintro ⟨hfirst, -⟩
    have hfirst : 0x41 ≤ c.val.toNat := hfirst
    omega
  have hlower : c.toLower = c := dif_neg hupper
  rw [String.toList_ofList, List.map_cons, List.head?_cons, hlower] at hw
  rcases hw with hw | hw <;> cases hw <;> exact absurd h (by decide)

theorem splitSign_of_digit {c : Char} (cs : List Char) (h : c.isDigit = true) :
    Decimal.splitSign (c :: cs) = (false, c :: cs) := by
  unfold Decimal.splitSign
  split
  · next heq => cases heq; cases h
  · next heq => cases heq; cases h
  · rfl

theorem read?_of_digit {cs rest : List Char} {c : Char} {negative : Bool}
    (hsplit : Decimal.splitSign cs = (negative, c :: rest)) (h : c.isDigit = true) :
    Double.read? cs = (Decimal.readUnsigned? negative (c :: rest)).map Decimal.toDouble := by
  have hinf := ne_word_of_digit rest h (w := "inf") (.inl rfl)
  have hinfinity := ne_word_of_digit rest h (w := "infinity") (.inl rfl)
  have hnan := ne_word_of_digit rest h (w := "nan") (.inr rfl)
  unfold Double.read?
  rw [hsplit]
  simp only [hinf, hinfinity, hnan, or_self, if_false]

theorem read?_text (h : p.Valid) :
    Double.read? p.text = some (p.value false).toDouble ∧
      Double.read? ('-' :: p.text) = some (p.value true).toDouble := by
  obtain ⟨c, rest, htext, hc⟩ := head_text h
  have hread (negative : Bool) := readUnsigned?_text h negative
  rw [htext] at hread ⊢
  constructor
  · rw [read?_of_digit (splitSign_of_digit rest hc) hc, hread, Option.map_some]
  · have hsplit : Decimal.splitSign ('-' :: c :: rest) = (true, c :: rest) := rfl
    rw [read?_of_digit hsplit hc, hread, Option.map_some]

end Parts

end Number

end RecordQuery
