import Mathlib.Data.List.TakeWhile
import RecordQuery.Token.Scan

namespace RecordQuery

namespace Text

theorem exists_range_of_covers {ranges : List (Nat × Nat)} {n : Nat}
    (h : covers ranges n = true) : ∃ r ∈ ranges, r.1 ≤ n ∧ n ≤ r.2 := by
  induction ranges with
  | nil => cases h
  | cons r ranges ih =>
      obtain ⟨first, last⟩ := r
      unfold covers at h
      split at h
      · cases h
      · next hfirst =>
          rcases Bool.or_eq_true_iff.1 h with hlast | h
          · exact ⟨_, List.mem_cons_self, Nat.not_lt.1 hfirst, of_decide_eq_true hlast⟩
          · obtain ⟨r, hr, hn⟩ := ih h
            exact ⟨r, List.mem_cons_of_mem _ hr, hn⟩

theorem le_of_isLetter {c : Char} (h : isLetter c = true) : 0x41 ≤ c.toNat := by
  refine Nat.le_of_not_lt fun hlt => ?_
  have hnone : isLetter c = false := covers_of_lt_first hlt
  rw [hnone] at h
  cases h

theorem covers_of_isBlank {ranges : List (Nat × Nat)}
    (hnone : ∀ r ∈ blanks, ∀ k ≤ r.2 - r.1, covers ranges (r.1 + k) = false) {c : Char}
    (h : isBlank c = true) : covers ranges c.toNat = false := by
  obtain ⟨r, hr, hfirst, hlast⟩ := exists_range_of_covers h
  have hcovers := hnone r hr (c.toNat - r.1) (by omega)
  rwa [Nat.add_sub_cancel' hfirst] at hcovers

theorem letters_hold_no_blank :
    ∀ r ∈ blanks, ∀ k ≤ r.2 - r.1, covers letters (r.1 + k) = false := by
  decide +kernel

theorem numerals_hold_no_blank :
    ∀ r ∈ blanks, ∀ k ≤ r.2 - r.1, covers numerals (r.1 + k) = false := by
  decide +kernel

theorem isLetter_of_isBlank {c : Char} (h : isBlank c = true) : isLetter c = false :=
  covers_of_isBlank letters_hold_no_blank h

theorem isNumeral_of_isBlank {c : Char} (h : isBlank c = true) : isNumeral c = false :=
  covers_of_isBlank numerals_hold_no_blank h

end Text

namespace Token

theorem toNat_of_isWordStart {c : Char} (h : isWordStart c = true) : 0x41 ≤ c.toNat := by
  rcases Bool.or_eq_true_iff.1 h with h | h
  · exact Text.le_of_isLetter h
  · rw [of_decide_eq_true h]
    decide

theorem ne_of_isWordStart {c d : Char} (h : isWordStart c = true) (hd : d.toNat < 0x41) :
    c ≠ d := by
  rintro rfl
  exact absurd (toNat_of_isWordStart h) (Nat.not_le.2 hd)

theorem isDigit_of_isWordStart {c : Char} (h : isWordStart c = true) : c.isDigit = false := by
  have hle := toNat_of_isWordStart h
  cases hdigit : c.isDigit with
  | false => rfl
  | true =>
      have hlast : c.toNat ≤ 0x39 := (Char.isDigit_iff_toNat.1 hdigit).2
      omega

theorem isBlank_of_isDigit {c : Char} (h : c.isDigit = true) : Text.isBlank c = false := by
  obtain ⟨hfirst, hlast⟩ : 0x30 ≤ c.toNat ∧ c.toNat ≤ 0x39 := Char.isDigit_iff_toNat.1 h
  have hranges : ∀ k ≤ 9, Text.covers Text.blanks (0x30 + k) = false := by decide
  have hcovers := hranges (c.toNat - 0x30) (by omega)
  rwa [Nat.add_sub_cancel' hfirst] at hcovers

theorem isBlank_of_isWordStart {c : Char} (h : isWordStart c = true) :
    Text.isBlank c = false := by
  rcases Bool.or_eq_true_iff.1 h with h | h
  · cases hblank : Text.isBlank c with
    | false => rfl
    | true =>
        rw [Text.isLetter_of_isBlank hblank] at h
        cases h
  · rw [of_decide_eq_true h]
    decide

theorem startsNumeral_of_isWordStart {c : Char} (h : isWordStart c = true) (cs : List Char) :
    startsNumeral c cs = false := by
  have hminus := ne_of_isWordStart (d := '-') h (by decide)
  have hplus := ne_of_isWordStart (d := '+') h (by decide)
  simp [startsNumeral, isDigit_of_isWordStart h, hminus, hplus]

/-- The characters that may follow a word, a number or a parameter in a written statement. -/
def breakers : List Char := [' ', ',', ':', ')', ']', '\x7d']

def Breaks (cs : List Char) : Prop := ∀ c, cs.head? = some c → c ∈ breakers

theorem breaks_nil : Breaks [] := fun _ h => by cases h

theorem breaks_cons {c : Char} {cs : List Char} (h : c ∈ breakers) : Breaks (c :: cs) :=
  fun d hd => by
    cases hd
    exact h

theorem breaks_blank {cs : List Char} : Breaks (' ' :: cs) := breaks_cons (by decide)

theorem Breaks.append {cs tail : List Char} (h : Breaks cs) (ht : Breaks tail) :
    Breaks (cs ++ tail) := by
  cases cs with
  | nil => exact ht
  | cons c cs => exact h

theorem forall_mem_of_all {p : Char → Bool} {cs : List Char}
    (h : (cs.all fun c => !p c) = true) : ∀ c ∈ cs, p c = false := by
  intro c hc
  simpa using List.all_eq_true.1 h c hc

theorem isWordChar_of_breaker : ∀ c ∈ breakers, isWordChar c = false :=
  forall_mem_of_all (by decide)

/-- The text is empty, or goes on with a character that no token before it takes in. -/
def Apart (cs : List Char) : Prop :=
  ∀ c, cs.head? = some c → isWordChar c = false ∧ c ∉ ['=', '+', '-']

theorem apart_nil : Apart [] := fun _ h => by cases h

theorem apart_of_isBlank {c : Char} (h : Text.isBlank c = true) (cs : List Char) :
    Apart (c :: cs) := fun d hd => by
  obtain rfl : c = d := Option.some.inj hd
  have hne : ∀ d ∈ ['_', '.', '=', '+', '-'], c ≠ d := by
    rintro d hd rfl
    have hnone : ∀ d ∈ ['_', '.', '=', '+', '-'], Text.isBlank d = false :=
      forall_mem_of_all (by decide)
    rw [hnone c hd] at h
    cases h
  refine ⟨?_, fun hmem => hne c (List.mem_cons_of_mem _ (List.mem_cons_of_mem _ hmem)) rfl⟩
  simp [isWordChar, isNameChar, Text.isLetter_of_isBlank h, Text.isNumeral_of_isBlank h,
    hne '_' (by decide), hne '.' (by decide)]

theorem Breaks.apart {cs : List Char} (h : Breaks cs) : Apart cs := fun c hc => by
  have hall : (breakers.all fun c => c ∉ ['=', '+', '-']) = true := by decide
  exact ⟨isWordChar_of_breaker c (h c hc), of_decide_eq_true (List.all_eq_true.1 hall c (h c hc))⟩

theorem isNameChar_of_isWordChar {c : Char} (h : isWordChar c = false) : isNameChar c = false :=
  (Bool.or_eq_false_iff.1 h).1

theorem isDigit_of_isWordChar {c : Char} (h : isWordChar c = false) : c.isDigit = false := by
  cases hdigit : c.isDigit with
  | false => rfl
  | true =>
      obtain ⟨hfirst, hlast⟩ : 0x30 ≤ c.toNat ∧ c.toNat ≤ 0x39 := Char.isDigit_iff_toNat.1 hdigit
      have hranges : ∀ k ≤ 9, Text.covers Text.numerals (0x30 + k) = true := by decide
      have hnumeral : Text.isNumeral c = true := by
        have hcovers := hranges (c.toNat - 0x30) (by omega)
        rwa [Nat.add_sub_cancel' hfirst] at hcovers
      have hname := isNameChar_of_isWordChar h
      rw [isNameChar, hnumeral, Bool.or_true, Bool.true_or] at hname
      cases hname

variable {p : Char → Bool} {cs tail : List Char}

theorem takeWhile_of_head (h : ∀ c, tail.head? = some c → p c = false) : tail.takeWhile p = [] := by
  cases tail with
  | nil => rfl
  | cons c tail => simp [h c rfl]

theorem takeWhile_append_of_head (h : ∀ c, tail.head? = some c → p c = false) :
    (cs ++ tail).takeWhile p = cs.takeWhile p := by
  induction cs with
  | nil => exact takeWhile_of_head h
  | cons c cs ih =>
      rw [List.cons_append, List.takeWhile_cons, List.takeWhile_cons, ih]

theorem Apart.digit (h : Apart tail) (c : Char) (hc : tail.head? = some c) : c.isDigit = false :=
  isDigit_of_isWordChar (h c hc).1

theorem Apart.name (h : Apart tail) (c : Char) (hc : tail.head? = some c) : isNameChar c = false :=
  isNameChar_of_isWordChar (h c hc).1

theorem Apart.word (h : Apart tail) (c : Char) (hc : tail.head? = some c) : isWordChar c = false :=
  (h c hc).1

theorem Apart.ne {d : Char} (h : Apart tail) (c : Char) (hc : tail.head? = some c)
    (hd : isWordChar d = true ∨ d ∈ ['=', '+', '-']) : c ≠ d := by
  rintro rfl
  rcases hd with hword | hmem
  · rw [(h c hc).1] at hword
    cases hword
  · exact (h c hc).2 hmem

theorem dropWhile_eq_drop (p : Char → Bool) (cs : List Char) :
    cs.dropWhile p = cs.drop (cs.takeWhile p).length := by
  calc cs.dropWhile p
    _ = (cs.takeWhile p ++ cs.dropWhile p).drop (cs.takeWhile p).length := List.drop_left.symm
    _ = cs.drop (cs.takeWhile p).length := by rw [List.takeWhile_append_dropWhile]

theorem takeWhile_append_drop (p : Char → Bool) (cs : List Char) :
    cs.takeWhile p ++ cs.drop (cs.takeWhile p).length = cs := by
  rw [← dropWhile_eq_drop, List.takeWhile_append_dropWhile]

theorem blanks_append_afterBlanks (cs : List Char) :
    cs.takeWhile Text.isBlank ++ Text.afterBlanks cs = cs := List.takeWhile_append_dropWhile

end Token

end RecordQuery
