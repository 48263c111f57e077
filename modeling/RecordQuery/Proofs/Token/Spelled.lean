import RecordQuery.Proofs.Number.Parts
import RecordQuery.Proofs.Token.Following

namespace RecordQuery.Token

open Number (Parts digits? readInt? readInt64?)

section Spellings

inductive Quoted (quote : Char) : List Char → List Char → Prop
  | nil : Quoted quote [] []
  | plain {c : Char} {cs s : List Char} (hquote : c ≠ quote) (hslash : c ≠ '\\')
      (h : Quoted quote cs s) : Quoted quote (c :: cs) (c :: s)
  | escape {c : Char} {cs s : List Char} (h : Quoted quote cs s) :
      Quoted quote ('\\' :: c :: cs) (unescape c :: s)

inductive Sign where
  | none
  | plus
  | minus

namespace Sign

def text : Sign → List Char
  | .none => []
  | .plus => ['+']
  | .minus => ['-']

def isNegative : Sign → Bool
  | .minus => true
  | .none | .plus => false

def apply : Sign → Nat → Int
  | .minus, n => -n
  | .none, n | .plus, n => n

end Sign

structure Digits where
  chars : List Char
  ne_nil : chars ≠ []
  digit : ∀ c ∈ chars, c.isDigit = true

def Digits.value (ds : Digits) : Nat := Nat.ofDigitChars 10 ds.chars 0

structure Power where
  letter : Char
  letter_eq : letter = 'e' ∨ letter = 'E'
  sign : Sign
  digits : Digits

structure Numeral where
  sign : Sign
  whole : Digits
  part : Option Digits
  power : Option Power

namespace Numeral

def partDigits (n : Numeral) : List Char := (n.part.map Digits.chars).getD []

def partText (n : Numeral) : List Char := (n.part.map fun ds => '.' :: ds.chars).getD []

def powerText (n : Numeral) : List Char :=
  (n.power.map fun p => p.letter :: (p.sign.text ++ p.digits.chars)).getD []

def exponent (n : Numeral) : Int := (n.power.map fun p => p.sign.apply p.digits.value).getD 0

def text (n : Numeral) : List Char := n.sign.text ++ (n.whole.chars ++ (n.partText ++ n.powerText))

def decimal (n : Numeral) : Decimal :=
  ⟨n.sign.isNegative, Nat.ofDigitChars 10 (n.whole.chars ++ n.partDigits) 0,
    n.exponent - n.partDigits.length⟩

def isDecimal (n : Numeral) : Bool := n.part.isSome || n.power.isSome

end Numeral

inductive Spelling : Lexeme → List Char → Prop
  | word {w : String} (h : IsWord w) : Spelling (.word w) w.toList
  | param {n : String} (h : IsName n) : Spelling (.param n) ('@' :: n.toList)
  | string {quote : Char} {cs s : List Char} (hquote : quote = '"' ∨ quote = '\'')
      (h : Quoted quote cs s) : Spelling (.string (String.ofList s)) (quote :: (cs ++ [quote]))
  | int {n : Numeral} {i : Int64} (hn : n.isDecimal = false)
      (hi : i.toInt = n.sign.apply n.whole.value) : Spelling (.int i) n.text
  | decimal {n : Numeral} (hn : n.isDecimal = true) : Spelling (.decimal n.decimal.toDouble) n.text
  | mark (m : Mark) : Spelling (.mark m) m.spelling.toList

end Spellings

section Numerals

theorem Digits.digits?_eq (ds : Digits) : digits? ds.chars = some ds.value :=
  if_pos ⟨ds.ne_nil, List.all_eq_true.2 ds.digit⟩

theorem Digits.exists_cons (ds : Digits) :
    ∃ c cs, ds.chars = c :: cs ∧ c.isDigit = true ∧ ∀ d ∈ cs, d.isDigit = true := by
  obtain ⟨c, cs, hcs⟩ := List.exists_cons_of_ne_nil ds.ne_nil
  have hall := ds.digit
  rw [hcs, List.forall_mem_cons] at hall
  exact ⟨c, cs, hcs, hall⟩

theorem ne_sign_of_isDigit {c : Char} (h : c.isDigit = true) : c ≠ '+' ∧ c ≠ '-' := by
  constructor <;> rintro rfl <;> exact absurd h (by decide)

theorem readInt?_signed (s : Sign) (ds : Digits) :
    readInt? (s.text ++ ds.chars) = some (s.apply ds.value) := by
  have hdigits := ds.digits?_eq
  cases s with
  | plus => exact congrArg (Option.map Int.ofNat) hdigits
  | minus => exact congrArg (Option.map fun n => -Int.ofNat n) hdigits
  | none =>
      obtain ⟨c, cs, hcs, hc, -⟩ := ds.exists_cons
      have hsign := ne_sign_of_isDigit hc
      rw [Sign.text, List.nil_append]
      rw [hcs] at hdigits ⊢
      unfold readInt?
      split
      · next heq => exact absurd (List.cons.inj heq).1 hsign.1
      · next heq => exact absurd (List.cons.inj heq).1 hsign.2
      · rw [hdigits]
        rfl

theorem splitSign_signed (s : Sign) {c : Char} (cs : List Char) (h : c.isDigit = true) :
    Decimal.splitSign (s.text ++ c :: cs) = (s.isNegative, c :: cs) := by
  cases s with
  | plus | minus => rfl
  | none => exact Parts.splitSign_of_digit cs h

theorem exponentDigits_signed (s : Sign) (ds : Digits) :
    exponentDigits (s.text ++ ds.chars) = s.text ++ ds.chars := by
  have hwhile : ds.chars.takeWhile Char.isDigit = ds.chars := List.takeWhile_eq_self_iff.2 ds.digit
  cases s with
  | plus =>
      change exponentDigits ('+' :: ds.chars) = '+' :: ds.chars
      rw [exponentDigits, if_pos (.inl rfl), hwhile]
      exact if_neg ds.ne_nil
  | minus =>
      change exponentDigits ('-' :: ds.chars) = '-' :: ds.chars
      rw [exponentDigits, if_pos (.inr rfl), hwhile]
      exact if_neg ds.ne_nil
  | none =>
      obtain ⟨c, cs, hcs, hc, -⟩ := ds.exists_cons
      rw [Sign.text, List.nil_append]
      rw [hcs] at hwhile ⊢
      rw [exponentDigits, if_neg (not_or.2 (ne_sign_of_isDigit hc)), hwhile]

namespace Numeral

-- the digits before the point and behind it; the power of ten has more than one spelling
def parts (n : Numeral) : Parts := ⟨n.whole.chars, n.partDigits, none⟩

theorem parts_valid (n : Numeral) : n.parts.Valid := by
  refine ⟨n.whole.ne_nil, n.whole.digit, ?_⟩
  rw [parts, partDigits]
  cases n.part with
  | none => exact List.forall_mem_nil _
  | some ds => exact ds.digit

theorem fractionText_parts (n : Numeral) : n.parts.fractionText = n.partText := by
  rw [Parts.fractionText, parts, partDigits, partText]
  cases n.part with
  | none => exact if_pos rfl
  | some ds => exact if_neg ds.ne_nil

theorem exponent_powerText (n : Numeral) : Token.exponent n.powerText = n.powerText := by
  rw [powerText]
  cases n.power with
  | none => rfl
  | some p =>
      have hne : p.sign.text ++ p.digits.chars ≠ [] :=
        List.append_ne_nil_of_right_ne_nil _ p.digits.ne_nil
      rw [Option.map_some, Option.getD_some, Token.exponent, if_pos p.letter_eq,
        exponentDigits_signed]
      exact if_neg hne

theorem readExponent?_powerText (n : Numeral) :
    Decimal.readExponent? n.powerText = some n.exponent := by
  rw [powerText, exponent]
  cases n.power with
  | none => rfl
  | some p =>
      rw [Option.map_some, Option.getD_some, Decimal.readExponent?, if_pos p.letter_eq]
      exact readInt?_signed p.sign p.digits

theorem head_powerText (n : Numeral) (c : Char) (h : n.powerText.head? = some c) :
    c.isDigit = false ∧ c ≠ '.' := by
  rw [powerText] at h
  cases hpower : n.power with
  | none =>
      rw [hpower] at h
      cases h
  | some p =>
      rw [hpower] at h
      obtain rfl : p.letter = c := Option.some.inj h
      rcases p.letter_eq with hletter | hletter <;> rw [hletter] <;> decide

theorem isDecimal_eq (n : Numeral) :
    (n.partText ≠ [] || n.powerText ≠ [] : Bool) = n.isDecimal := by
  rw [partText, powerText, isDecimal]
  cases n.part <;> cases n.power <;> simp

theorem exists_cons_text (n : Numeral) :
    ∃ c rest, n.text = c :: rest ∧ startsNumeral c rest = true ∧
      numeralTail rest = (rest, n.isDecimal) := by
  have htail {ds : List Char} (hds : ∀ c ∈ ds, c.isDigit = true) :
      numeralTail (ds ++ (n.partText ++ n.powerText)) =
        (ds ++ (n.partText ++ n.powerText), n.isDecimal) := by
    rw [← n.isDecimal_eq, ← n.fractionText_parts]
    exact numeralTail_append_power hds n.parts_valid.part n.head_powerText n.exponent_powerText
  obtain ⟨c, cs, hcs, hc, hdigits⟩ := n.whole.exists_cons
  have hfirst (d : Char) (rest : List Char) (hd : d = '-' ∨ d = '+') :
      startsNumeral d (n.whole.chars ++ rest) = true := by
    rcases hd with rfl | rfl <;> simp [startsNumeral, hcs, hc]
  rw [text]
  cases n.sign with
  | plus => exact ⟨'+', _, rfl, hfirst _ _ (.inr rfl), htail n.whole.digit⟩
  | minus => exact ⟨'-', _, rfl, hfirst _ _ (.inl rfl), htail n.whole.digit⟩
  | none =>
      refine ⟨c, cs ++ (n.partText ++ n.powerText), by rw [hcs]; rfl, ?_, htail hdigits⟩
      simp [startsNumeral, hc]

theorem read?_text (n : Numeral) : Double.read? n.text = some n.decimal.toDouble := by
  obtain ⟨c, cs, hcs, hc, -⟩ := n.whole.exists_cons
  have hunsigned := Parts.readUnsigned?_append n.parts_valid n.head_powerText
    n.readExponent?_powerText n.sign.isNegative
  rw [n.fractionText_parts] at hunsigned
  change Decimal.readUnsigned? _ (n.whole.chars ++ _) = some n.decimal at hunsigned
  rw [text]
  rw [hcs, List.cons_append] at hunsigned ⊢
  rw [Parts.read?_of_digit (splitSign_signed n.sign _ hc) hc, hunsigned, Option.map_some]

theorem readInt64?_text {n : Numeral} (hn : n.isDecimal = false) :
    readInt64? n.text = Number.toInt64? (n.sign.apply n.whole.value) := by
  have hnone : n.part = none ∧ n.power = none := by simpa [isDecimal] using hn
  have htext : n.text = n.sign.text ++ n.whole.chars := by
    rw [text, partText, powerText, hnone.1, hnone.2]
    simp
  rw [readInt64?, htext, readInt?_signed, Option.bind_some]

end Numeral

end Numerals

section Alone

variable {l : Lexeme} {cs : List Char}

theorem Quoted.scanString {quote : Char} {s : List Char} (hquote : '\\' ≠ quote)
    (h : Quoted quote cs s) :
    ∃ hlt, Token.scanString quote (cs ++ [quote]) = .ok ⟨s, [], hlt⟩ := by
  induction h with
  | nil => exact ⟨_, scanString_close quote []⟩
  | plain hc hslash _ ih =>
      obtain ⟨_, hscan⟩ := ih
      exact scanString_plain hc hslash hscan
  | escape _ ih =>
      obtain ⟨_, hscan⟩ := ih
      exact scanString_escape hquote hscan

def ScannedAlone (l : Lexeme) (cs : List Char) : Prop :=
  ∃ c body, cs = c :: body ∧ Text.isBlank c = false ∧
    ∃ hlt, Token.scan c body = .ok ⟨l, [], hlt⟩

theorem scannedAlone_quoted {quote : Char} {s : List Char} (hquote : quote = '"' ∨ quote = '\'')
    (h : Quoted quote cs s) :
    ScannedAlone (.string (String.ofList s)) (quote :: (cs ++ [quote])) := by
  have hslash : '\\' ≠ quote := by
    rcases hquote with rfl | rfl <;> decide
  have hblank : Text.isBlank quote = false := by
    rcases hquote with rfl | rfl <;> decide
  obtain ⟨hlt, hscan⟩ := h.scanString hslash
  refine ⟨quote, cs ++ [quote], rfl, hblank, Nat.lt_succ_of_lt hlt, ?_⟩
  rw [scan, if_pos hquote, hscan]
  rfl

theorem scannedAlone_numeral {n : Numeral} (h : numeralValue n.text n.isDecimal = .ok l) :
    ScannedAlone l n.text := by
  obtain ⟨c, rest, htext, hstart, htail⟩ := n.exists_cons_text
  have hscan := scan_numeral hstart htail breaks_nil
  rw [← htext, h, List.append_nil] at hscan
  refine ⟨c, rest, htext, isBlank_of_startsNumeral hstart, Nat.zero_lt_succ _, ?_⟩
  rw [hscan]
  simp only [Outcome.ok_map, dropTail, List.drop_length]

theorem scannedAlone_mark (m : Mark) : ScannedAlone (.mark m) m.spelling.toList := by
  have hmark (c : Char) (h : mark? c = some m) : ScannedAlone (.mark m) [c] :=
    ⟨c, [], rfl, isBlank_of_marker c (mem_markers_of_mark? h), _, scan_of_mark? h []⟩
  cases m with
  | greater | greaterEqual | less | lessEqual =>
      exact ⟨_, _, rfl, by decide, by decide, rfl⟩
  | _ => exact hmark _ rfl

theorem Spelling.scannedAlone (h : Spelling l cs) : ScannedAlone l cs := by
  cases h with
  | word h =>
      obtain ⟨c, cs, hw, hblank, hscan⟩ := scan_word h
      have hscan := hscan [] breaks_nil
      rw [List.append_nil] at hscan
      exact ⟨c, cs, hw, hblank, hscan⟩
  | param h =>
      have hscan := scan_param h breaks_nil
      rw [List.append_nil] at hscan
      exact ⟨'@', _, rfl, by decide, hscan⟩
  | string hquote h => exact scannedAlone_quoted hquote h
  | @int n i hn hi =>
      refine scannedAlone_numeral ?_
      rw [numeralValue, hn, if_neg Bool.false_ne_true, Numeral.readInt64?_text hn, ← hi,
        Number.toInt64?_toInt]
  | @decimal n hn =>
      refine scannedAlone_numeral ?_
      rw [numeralValue, hn, if_pos rfl, n.read?_text]
  | mark m => exact scannedAlone_mark m

end Alone

section Taken

variable {c : Char} {cs : List Char}

theorem quoted_of_scanString {quote : Char} :
    ∀ {cs : List Char} {r : Read Char (List Char) cs}, scanString quote cs = .ok r →
      ∃ inner, cs = inner ++ quote :: r.rest ∧ Quoted quote inner r.value
  | [], r, h => by cases h
  | c :: cs, r, h => by
      rw [scanString.eq_def] at h
      dsimp only at h
      split at h
      · next hc =>
          cases h
          exact ⟨[], by rw [hc]; rfl, .nil⟩
      · next hc =>
          split at h
          · next hslash =>
              cases cs with
              | nil => cases h
              | cons d cs =>
                  obtain ⟨r', hr, rfl⟩ := Outcome.map_eq_ok.1 h
                  obtain ⟨inner, hinner, hquoted⟩ := quoted_of_scanString hr
                  refine ⟨'\\' :: d :: inner, ?_, hquoted.escape⟩
                  rw [hslash]
                  exact congrArg ('\\' :: d :: ·) hinner
          · next hslash =>
              obtain ⟨r', hr, rfl⟩ := Outcome.map_eq_ok.1 h
              obtain ⟨inner, hinner, hquoted⟩ := quoted_of_scanString hr
              exact ⟨c :: inner, congrArg (c :: ·) hinner, hquoted.plain hc hslash⟩

def Digits.ofTakeWhile (cs : List Char) (h : cs.takeWhile Char.isDigit ≠ []) : Digits :=
  ⟨cs.takeWhile Char.isDigit, h, fun _ => List.mem_takeWhile_imp⟩

theorem exists_part (cs : List Char) :
    ∃ part : Option Digits, fraction cs = (part.map fun ds => '.' :: ds.chars).getD [] := by
  unfold fraction
  split
  · next cs =>
      dsimp only
      split
      · exact ⟨none, rfl⟩
      · next h => exact ⟨some (.ofTakeWhile cs h), rfl⟩
  · exact ⟨none, rfl⟩

theorem exists_signed (h : exponentDigits cs ≠ []) :
    ∃ (s : Sign) (ds : Digits), exponentDigits cs = s.text ++ ds.chars := by
  cases cs with
  | nil => exact absurd rfl h
  | cons c cs =>
      rw [exponentDigits] at h ⊢
      split at h
      · next hsign =>
          dsimp only at h ⊢
          split at h
          · exact absurd rfl h
          · next hdigits =>
              rw [if_pos hsign, if_neg hdigits]
              rcases hsign with rfl | rfl
              · exact ⟨.plus, .ofTakeWhile cs hdigits, rfl⟩
              · exact ⟨.minus, .ofTakeWhile cs hdigits, rfl⟩
      · next hsign =>
          rw [if_neg hsign]
          exact ⟨.none, .ofTakeWhile (c :: cs) h, rfl⟩

theorem exists_power (cs : List Char) : ∃ power : Option Power,
    exponent cs = (power.map fun p => p.letter :: (p.sign.text ++ p.digits.chars)).getD [] := by
  cases cs with
  | nil => exact ⟨none, rfl⟩
  | cons c cs =>
      rw [exponent]
      split
      · next hletter =>
          dsimp only
          split
          · exact ⟨none, rfl⟩
          · next h =>
              obtain ⟨s, ds, hsigned⟩ := exists_signed h
              exact ⟨some ⟨c, hletter, s, ds⟩, congrArg (c :: ·) hsigned⟩
      · exact ⟨none, rfl⟩

theorem exists_whole (h : startsNumeral c cs = true) : ∃ (s : Sign) (ds : Digits),
    c :: cs.takeWhile Char.isDigit = s.text ++ ds.chars := by
  by_cases hc : c.isDigit = true
  · have hwhole : (c :: cs).takeWhile Char.isDigit = c :: cs.takeWhile Char.isDigit :=
      List.takeWhile_cons_of_pos hc
    exact ⟨.none, .ofTakeWhile (c :: cs) (by rw [hwhole]; exact List.cons_ne_nil _ _), hwhole.symm⟩
  · have hsign : c = '-' ∨ c = '+' := (first_of_startsNumeral h).resolve_left hc
    have hdigits : cs.takeWhile Char.isDigit ≠ [] := by
      cases cs with
      | nil => simp [startsNumeral, hc] at h
      | cons d cs =>
          have hd : d.isDigit = true := by
            simp only [startsNumeral, hc, Bool.false_or, Bool.and_eq_true] at h
            exact h.2
          rw [List.takeWhile_cons_of_pos hd]
          exact List.cons_ne_nil _ _
    rcases hsign with rfl | rfl
    · exact ⟨.minus, .ofTakeWhile cs hdigits, rfl⟩
    · exact ⟨.plus, .ofTakeWhile cs hdigits, rfl⟩

theorem exists_numeral (h : startsNumeral c cs = true) : ∃ n : Numeral,
    c :: (numeralTail cs).1 = n.text ∧ (numeralTail cs).2 = n.isDecimal := by
  obtain ⟨s, whole, hwhole⟩ := exists_whole h
  obtain ⟨part, hpart⟩ := exists_part (cs.drop (cs.takeWhile Char.isDigit).length)
  obtain ⟨power, hpower⟩ := exists_power (cs.drop ((cs.takeWhile Char.isDigit).length +
    (fraction (cs.drop (cs.takeWhile Char.isDigit).length)).length))
  refine ⟨⟨s, whole, part, power⟩, ?_, ?_⟩
  · rw [Numeral.text, Numeral.partText, Numeral.powerText, ← hpart, ← hpower,
      ← List.append_assoc, ← hwhole, ← List.append_assoc]
    rfl
  · rw [← Numeral.isDecimal_eq, Numeral.partText, Numeral.powerText, ← hpart, ← hpower]
    rfl

theorem spelling_of_numeralValue {n : Numeral} {l : Lexeme}
    (h : numeralValue n.text n.isDecimal = .ok l) : Spelling l n.text := by
  cases hdecimal : n.isDecimal with
  | true =>
      rw [hdecimal, numeralValue, if_pos rfl, n.read?_text] at h
      cases h
      exact .decimal hdecimal
  | false =>
      rw [hdecimal, numeralValue, if_neg Bool.false_ne_true, Numeral.readInt64?_text hdecimal] at h
      split at h
      · next i hi =>
          cases h
          exact .int hdecimal (Number.toInt_of_toInt64? hi)
      · cases h

theorem toList_spelling_of_mark? {m : Mark} (h : mark? c = some m) : m.spelling.toList = [c] := by
  unfold mark? at h
  split at h <;> cases h <;> rfl

def Takes {cs : List Char} (r : Read Char Lexeme cs) : Prop :=
  ∃ taken, cs = taken ++ r.rest ∧ Spelling r.value taken

theorem takes_scanOrder {plain orEqual : Mark} (cs : List Char)
    (hplain : plain.spelling.toList = [c]) (hequal : orEqual.spelling.toList = [c, '=']) :
    Takes (scanOrder plain orEqual c cs) := by
  unfold scanOrder
  split
  · next hhead =>
      obtain ⟨tail, rfl⟩ := List.head?_eq_some_iff.1 hhead
      exact ⟨[c, '='], rfl, hequal ▸ .mark orEqual⟩
  · exact ⟨[c], rfl, hplain ▸ .mark plain⟩

theorem takes_of_scan {r : Read Char Lexeme (c :: cs)} (h : scan c cs = .ok r) : Takes r := by
  unfold scan at h
  dsimp only at h
  split at h
  · next hquote =>
      obtain ⟨q, hq, rfl⟩ := Outcome.map_eq_ok.1 h
      obtain ⟨inner, hinner, hquoted⟩ := quoted_of_scanString hq
      refine ⟨c :: (inner ++ [c]), ?_, .string hquote hquoted⟩
      simp [hinner]
  · split at h
    · next hat =>
        split at h
        · cases h
        · next hname =>
            cases h
            refine ⟨c :: cs.takeWhile isNameChar, ?_, ?_⟩
            · exact congrArg (c :: ·) (takeWhile_append_drop isNameChar cs).symm
            · have hparam : IsName (String.ofList (cs.takeWhile isNameChar)) := by
                rw [IsName, String.toList_ofList]
                exact ⟨hname, fun _ => List.mem_takeWhile_imp⟩
              have hspelling := Spelling.param hparam
              rwa [String.toList_ofList, ← hat] at hspelling
    · split at h
      · next hstart =>
          obtain ⟨l, hl, rfl⟩ := Outcome.map_eq_ok.1 h
          obtain ⟨n, htext, hdecimal⟩ := exists_numeral hstart
          rw [htext, hdecimal] at hl
          refine ⟨c :: (numeralTail cs).1, ?_, htext ▸ spelling_of_numeralValue hl⟩
          exact congrArg (c :: ·) (numeralTail_append_drop cs).symm
      · split at h
        · next hstart =>
            cases h
            refine ⟨c :: cs.takeWhile isWordChar, ?_, ?_⟩
            · exact congrArg (c :: ·) (takeWhile_append_drop isWordChar cs).symm
            · have hword : IsWord (String.ofList (c :: cs.takeWhile isWordChar)) :=
                ⟨c, _, String.toList_ofList, hstart, fun _ => List.mem_takeWhile_imp⟩
              have hspelling := Spelling.word hword
              rwa [String.toList_ofList] at hspelling
        · split at h
          · next hgreater =>
              cases h
              subst hgreater
              exact takes_scanOrder cs rfl rfl
          · split at h
            · next hless =>
                cases h
                subst hless
                exact takes_scanOrder cs rfl rfl
            · split at h
              · next m hm =>
                  cases h
                  exact ⟨[c], rfl, toList_spelling_of_mark? hm ▸ .mark m⟩
              · cases h

end Taken

end RecordQuery.Token
