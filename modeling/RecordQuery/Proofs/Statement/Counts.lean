import RecordQuery.Draft
import RecordQuery.Proofs.Statement.Head

namespace RecordQuery

open Token (IsWord Spells Writes Breaks)

namespace Written

variable {n : Nat} {tail : List Char} {limits : Limits}

theorem readInt64?_toDigits (h : countBound ≤ n) :
    Number.readInt64? (Nat.toDigits 10 n) = none := by
  have hwrite : Number.writeInt n = Nat.toDigits 10 n := by
    rw [Number.writeInt, if_neg (by omega), Int.natAbs_natCast]
  have hrange : Number.toInt64? n = none := by
    unfold countBound at h
    exact if_neg (by omega)
  rw [← hwrite, Number.readInt64?, Number.readInt?_writeInt, Option.bind_some, hrange]

theorem ofChars_of_wide (h : countBound ≤ n) (hb : Breaks tail) :
    ∃ fragment, Token.ofChars ((toString n).toList ++ tail) =
      .error (.malformed .integerRange fragment) := by
  have hdigits : ∀ c ∈ Nat.toDigits 10 n, c.isDigit = true := fun c hc =>
    Nat.isDigit_of_mem_toDigits (by decide) (by decide) hc
  have htext : (toString n).toList = Nat.toDigits 10 n := by simp
  have hnone := readInt64?_toDigits h
  obtain ⟨c, cs, hcs⟩ := List.exists_cons_of_ne_nil (@Nat.toDigits_ne_nil n 10)
  rw [hcs] at hdigits hnone
  rw [List.forall_mem_cons] at hdigits
  have hstart : Token.startsNumeral c cs = true := by simp [Token.startsNumeral, hdigits.1]
  have hnumeral : Token.numeralTail cs = (cs, false) := by
    have hparts := @Token.numeralTail_parts ⟨[], [], none⟩ cs hdigits.2 (List.forall_mem_nil _)
    simpa [Number.Parts.fractionText, Number.Parts.exponentText] using hparts
  rw [htext, hcs, List.cons_append, Token.ofChars_of_cons
    (Text.afterBlanks_cons_of_not_blank (Token.isBlank_of_startsNumeral hstart)),
    Token.scan_numeral hstart hnumeral hb, Token.numeralValue, hnone]
  exact ⟨_, rfl⟩

theorem breaks_numberText (clause : String) (n : Option UInt64) :
    Breaks (numberText clause n).toList := by
  cases n with
  | none => exact Token.breaks_nil
  | some n =>
      simp only [numberText, String.toList_append, List.append_assoc]
      exact Token.breaks_blank

theorem breaks_windowText (ss : List SortField) (skip limit : Option UInt64) :
    Breaks (windowText ss skip limit).toList := by
  have horder : Breaks (orderText ss).toList := by
    unfold orderText
    split
    · exact Token.breaks_nil
    · rw [String.toList_append]
      exact Token.breaks_blank
  simp only [windowText, String.toList_append]
  exact (horder.append (breaks_numberText "skip" skip)).append (breaks_numberText "limit" limit)

theorem ofChars_numberText {clause : String} (hclause : IsWord clause) {m : UInt64}
    (hm : countBound ≤ m.toNat) (hb : Breaks tail) :
    ∃ fragment, Token.ofChars ((numberText clause (given m)).toList ++ tail) =
      .error (.malformed .integerRange fragment) := by
  have hzero : m ≠ 0 := by
    rintro rfl
    exact absurd hm (by decide)
  have htext : (numberText clause (given m)).toList ++ tail =
      (' ' :: clause.toList) ++ (' ' :: ((toString m.toNat).toList ++ tail)) := by
    simp [numberText, given, hzero]
  obtain ⟨fragment, hwide⟩ := ofChars_of_wide hm hb
  refine ⟨fragment, ?_⟩
  rw [htext]
  refine (Writes.word hclause).blank.append_error Token.breaks_blank ?_
  rw [Token.ofChars_of_blank (by decide), hwide]

theorem ofChars_windowText {ss : List SortField} {skip limit : UInt64}
    (hss : ∀ s ∈ ss, IsWord s.name)
    (hwide : ¬ (skip.toNat < countBound ∧ limit.toNat < countBound)) :
    ∃ fragment, Token.ofChars (windowText ss (given skip) (given limit)).toList =
      .error (.malformed .integerRange fragment) := by
  have hlimit := breaks_numberText "limit" (given limit)
  simp only [windowText, String.toList_append, List.append_assoc]
  by_cases hskip : skip.toNat < countBound
  · -- the number to skip is a token, and the limit behind it is not
    have hcount := clausal_count "skip" (by decide) (toNat_of_given hskip)
    obtain ⟨fragment, herror⟩ := @ofChars_numberText [] "limit" (by decide) limit
      (by omega) Token.breaks_nil
    rw [List.append_nil] at herror
    exact ⟨fragment, (clausal_order hss).1.append_error (hcount.2.append hlimit)
      (hcount.1.append_error hlimit herror)⟩
  · obtain ⟨fragment, herror⟩ := @ofChars_numberText _ "skip" (by decide) skip
      (Nat.le_of_not_lt hskip) hlimit
    exact ⟨fragment, (clausal_order hss).1.append_error
      ((breaks_numberText "skip" (given skip)).append hlimit) herror⟩

def Stated (limits : Limits) (c : Option Condition) : Prop :=
  ∀ d ∈ c, ∃ ts clause, Token.ofChars d.text.toList = .ok ts ∧
    Gives (readClause limits ts) clause []

theorem exists_clausal_of_stated {c : Option Condition} (h : Stated limits c) :
    ∃ ls clause, ReadsWhere limits ls clause ∧ Clausal ls (Command.whereText c).toList := by
  cases c with
  | none => exact ⟨[], none, readsWhere_nil, clausal_nil⟩
  | some c =>
      obtain ⟨ts, clause, hts, hread⟩ := h c rfl
      obtain ⟨-, ls, first, more, hchain, -, hs⟩ := gives_readClause_iff.1 hread
      have hwrites := Token.writes_of_ofChars hts
      rw [hs.map_lexeme, List.map_nil, List.append_nil] at hwrites
      refine ⟨_, _, readsWhere_of_chain hchain, ?_⟩
      rw [Command.whereText, String.toList_append]
      exact clausal_word (w := "where") (by decide) hwrites

theorem exists_head {fields : List String} {entity : String} {c : Option Condition}
    (hfields : ∀ name ∈ fields, IsWord name) (hentity : IsWord entity) (hc : Stated limits c) :
    ∃ q, Head limits (selectText fields entity ++ Command.whereText c) q := by
  obtain ⟨ls, clause, hreads, hclausal⟩ := exists_clausal_of_stated hc
  have hwrites := writes_select hfields hentity hclausal
  obtain ⟨ts, hts, hs⟩ := hwrites.eof
  have hnil : Spells [] [] [] := rfl
  rw [← String.toList_append] at hts
  have hverb : ∃ cs, (selectText fields entity ++ Command.whereText c).toList =
      Verb.select.keyword.toList ++ cs := by simp [selectText, Verb.keyword]
  obtain ⟨cs, hcs⟩ := hverb
  exact ⟨_, verb_of_text hcs, ts, hts, readFront_of_spells hreads hs (trails_nil.stops hnil)⟩

end Written

namespace Query

open Written

variable {limits : Limits}

/-- From the text of a selection whose names are words, the numbers to skip and to limit it by are
read back as long as both fit 63 bits. Past that the text is refused, for there is no such integer
in a query. -/
theorem counts_read_back {q : Selection} (hfields : ∀ name ∈ q.fields, IsWord name)
    (hentity : IsWord q.entity) (hsorts : ∀ k ∈ q.sorts, IsWord k.name)
    (hcondition : Stated limits q.condition) (naming : Naming) :
    (q.skip.toNat < 2 ^ 63 ∧ q.limit.toNat < 2 ^ 63 → ∃ (s : Selection) (params : Params),
      parse limits naming (Command.text (.select q)) = .ok ⟨.select s, params⟩ ∧
        s.skip = q.skip ∧ s.limit = q.limit) ∧
    (¬ (q.skip.toNat < 2 ^ 63 ∧ q.limit.toNat < 2 ^ 63) → ∃ fragment,
      parse limits naming (Command.text (.select q)) =
        .error (.malformed .integerRange fragment)) := by
  obtain ⟨head, hhead⟩ := exists_head hfields hentity hcondition
  obtain ⟨s, params, -, -, -, hwithin⟩ := exists_ofWritten_within hhead naming
  have hwords : ∀ f ∈ q.sorts.map SortField.ofKey, IsWord f.name := List.forall_mem_map.2 hsorts
  rw [Select.text_eq]
  constructor
  · rintro ⟨hskip, hlimit⟩
    have hskip := toNat_of_given hskip
    have hlimit := toNat_of_given hlimit
    obtain ⟨hwrites, hb⟩ := clausal_window hwords hskip hlimit
    obtain ⟨ts, hts, hs⟩ := hwrites.eof
    have htext := hhead.ofText_append hb hts ((trails_windowLexemes _ _ _).stops hs)
    rw [readWindow_of_spells hskip hlimit hs] at htext
    rw [parse_of_ofText htext, hwithin]
    exact ⟨_, _, rfl, getD_given q.skip, getD_given q.limit⟩
  · intro hwide
    obtain ⟨fragment, herror⟩ := ofChars_windowText hwords hwide
    have htext := hhead.ofText_append_error (breaks_windowText _ _ _) herror
    exact ⟨fragment, parse_of_ofText_error htext naming⟩

def counted (skip limit : UInt64) : Selection :=
  ⟨"God", ["name"], some (.compare .greater ⟨"age", .int 5⟩), [⟨"skip", .descending⟩], limit, skip⟩

theorem stated_counted (skip limit : UInt64) : Stated {} (counted skip limit).condition := by
  rintro d ⟨⟩
  exact ⟨_, .compare "age" .greater (.int 5), by cbv, by decide, by cbv⟩

theorem counted_reads_back :
    (∃ (s : Selection) (params : Params),
      parse {} .identity (Command.text (.select (counted 1 9_223_372_036_854_775_807))) =
        .ok ⟨.select s, params⟩ ∧ s.skip = 1 ∧ s.limit = 9_223_372_036_854_775_807) ∧
    ∃ fragment, parse {} .identity (Command.text (.select (counted 9_223_372_036_854_775_808 0))) =
      .error (.malformed .integerRange fragment) := by
  constructor
  · exact (counts_read_back (by decide) (by decide) (by decide)
      (stated_counted _ _) .identity).1 (by decide)
  · exact (counts_read_back (by decide) (by decide) (by decide)
      (stated_counted _ _) .identity).2 (by decide)

/-- The largest limit is written in full, and its text is refused under all limits. -/
theorem largest_limit_refused :
    ((Draft.ofFields []).calls [.source "God", .limit 18_446_744_073_709_551_615]).select =
      .ok ⟨"God", [], none, [], 18_446_744_073_709_551_615, 0⟩ ∧
    Command.text (.select ⟨"God", [], none, [], 18_446_744_073_709_551_615, 0⟩) =
      "select * from God limit 18446744073709551615" ∧
    ∀ limits naming, parse limits naming "select * from God limit 18446744073709551615" =
      .error (.malformed .integerRange "18446744073709551615") := by
  refine ⟨rfl, by decide, fun limits naming => ?_⟩
  cbv

end Query

end RecordQuery
