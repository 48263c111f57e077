import RecordQuery.Proofs.Cursor.Statement
import RecordQuery.Proofs.Grammar.Settled
import RecordQuery.Proofs.Statement.ReadBack
import RecordQuery.Proofs.Token.Spacing

namespace RecordQuery

theorem Outcome.same_of_unplaced {α : Type} {o o' : Outcome α} (h : o.unplaced = o'.unplaced) :
    (∃ v, o = .ok v ∧ o' = .ok v) ∨
      ∃ e e', o = .error e ∧ o' = .error e' ∧ e.unplaced = e'.unplaced := by
  cases o' with
  | ok v => exact .inl ⟨v, Outcome.eq_ok_of_unplaced h, rfl⟩
  | error e' =>
      obtain ⟨e, he, hunplaced⟩ := Outcome.exists_error_of_unplaced h
      exact .inr ⟨e, e', he, rfl, hunplaced⟩

namespace Cursor

variable {all all' : List Token}

theorem Halt.unplaced_placed {halt : Halt} {e e' : QueryError} (h : halt.placed all = some e)
    (h' : halt.placed all' = some e') : e.unplaced = e'.unplaced := by
  cases halt with
  | malformed fault place =>
      obtain ⟨-, he⟩ := Option.ite_none_right_eq_some.1 h
      obtain ⟨-, he'⟩ := Option.ite_none_right_eq_some.1 h'
      cases he
      cases he'
      rfl
  | refused e₀ _ =>
      cases h
      cases h'
      rfl
  | broken b => cases h

-- one step that agrees with two readings, each of tokens of its own
theorem Agrees.unplaced_eq {α : Type} {c : Cursor} {s : Step (α × Cursor)} {o o' : Outcome α}
    (h : Agrees all toEnd c s o) (h' : Agrees all' toEnd c s o') : o.unplaced = o'.unplaced := by
  cases o with
  | ok v =>
      obtain ⟨c₁, rfl, -⟩ := h
      cases o' with
      | ok v' =>
          obtain ⟨c₂, hs, -⟩ := h'
          cases hs
          rfl
      | error e' =>
          obtain ⟨halt, hs, -⟩ := h'
          cases hs
  | error e =>
      obtain ⟨halt, rfl, hplaced⟩ := h
      cases o' with
      | ok v' =>
          obtain ⟨c₂, hs, -⟩ := h'
          cases hs
      | error e' =>
          obtain ⟨halt', hs, hplaced'⟩ := h'
          cases hs
          exact congrArg Except.error (Halt.unplaced_placed hplaced hplaced')

theorem unplaced_readStatement_of_kinds (limits : Limits) (verb : Verb)
    (h : kindsOf all = kindsOf all') :
    (Written.readStatement limits verb all).unplaced =
      (Written.readStatement limits verb all').unplaced := by
  have hall := agrees_whole limits verb all
  rw [h] at hall
  exact hall.unplaced_eq (agrees_whole limits verb all')

theorem kindsOf_eq_of_lexemes {ts : List Token} {ps : List Token.Piece}
    (h : ts.map Token.lexeme = ps.map Token.Piece.lexeme) :
    kindsOf ts = ps.map (fun p => some p.lexeme) ++ [none] := by
  have hkinds := congrArg (List.map some) h
  rw [List.map_map, List.map_map] at hkinds
  exact congrArg (· ++ [none]) hkinds

end Cursor

namespace Query

variable {text text' : String} {verb : Verb} {ts ts' : List Token}

theorem ofText_of_begins (limits : Limits) (h : verb.keyword.toList <+: text.toList)
    (hts : Token.ofChars text.toList = .ok ts) :
    Written.ofText limits text = Written.readStatement limits verb ts := by
  obtain ⟨cs, hcs⟩ := h
  rw [Written.ofText, Written.verb_of_text hcs.symm, hts]
  rfl

theorem unplaced_parse_of_kinds (limits : Limits) (naming : Naming)
    (h : verb.keyword.toList <+: text.toList) (h' : verb.keyword.toList <+: text'.toList)
    (hts : Token.ofChars text.toList = .ok ts) (hts' : Token.ofChars text'.toList = .ok ts')
    (hkinds : Cursor.kindsOf ts = Cursor.kindsOf ts') :
    (parse limits naming text).unplaced = (parse limits naming text').unplaced := by
  have hread := Cursor.unplaced_readStatement_of_kinds limits verb hkinds
  rw [← ofText_of_begins limits h hts, ← ofText_of_begins limits h' hts'] at hread
  exact Outcome.unplaced_bind_congr hread (ofWritten naming)

/-- A text of spelled tokens kept apart by blanks is split into these, with the end behind them, and
no other texts are split than those of spelled tokens and blanks. Texts that begin with one verb and
have the same kinds of tokens are read as the same query, or fail with errors that differ at most in
what they quote. -/
theorem kinds_settle_reading :
    (∀ lead : List Char, (∀ c ∈ lead, Text.isBlank c = true) →
      ∀ pieces : List Token.Piece, Token.Piece.Apart pieces →
        (Token.ofChars (lead ++ Token.Piece.joined pieces)).map Cursor.kindsOf =
          .ok (pieces.map (fun p => some p.lexeme) ++ [none])) ∧
    (∀ (cs : List Char) (kinds : List (Option Lexeme)),
      (Token.ofChars cs).map Cursor.kindsOf = .ok kinds →
        ∃ (lead : List Char) (pieces : List Token.Piece), (∀ c ∈ lead, Text.isBlank c = true) ∧
          cs = lead ++ Token.Piece.joined pieces ∧
          kinds = pieces.map (fun p => some p.lexeme) ++ [none]) ∧
    ∀ (limits : Limits) (naming : Naming) (verb : Verb) (text text' : String)
      (kinds : List (Option Lexeme)), verb.keyword.toList <+: text.toList →
      verb.keyword.toList <+: text'.toList →
      (Token.ofChars text.toList).map Cursor.kindsOf = .ok kinds →
      (Token.ofChars text'.toList).map Cursor.kindsOf = .ok kinds →
        (∃ q, parse limits naming text = .ok q ∧ parse limits naming text' = .ok q) ∨
        ∃ e e', parse limits naming text = .error e ∧ parse limits naming text' = .error e' ∧
          e.unplaced = e'.unplaced := by
  refine ⟨?_, ?_, ?_⟩
  · intro lead hlead pieces hapart
    obtain ⟨ts, hts, hlexemes⟩ := Token.ofChars_joined hapart
    rw [Token.ofChars_of_blanks hlead, hts, Outcome.ok_map, Cursor.kindsOf_eq_of_lexemes hlexemes]
  · intro cs kinds hkinds
    obtain ⟨ts, hts, rfl⟩ := Outcome.map_eq_ok.1 hkinds
    obtain ⟨lead, pieces, hlead, hcs, hlexemes⟩ := Token.exists_pieces hts
    exact ⟨lead, pieces, hlead, hcs, Cursor.kindsOf_eq_of_lexemes hlexemes⟩
  · intro limits naming verb text text' kinds hbegins hbegins' hkinds hkinds'
    obtain ⟨ts, hts, rfl⟩ := Outcome.map_eq_ok.1 hkinds
    obtain ⟨ts', hts', hsame⟩ := Outcome.map_eq_ok.1 hkinds'
    exact Outcome.same_of_unplaced
      (unplaced_parse_of_kinds limits naming hbegins hbegins' hts hts' hsame.symm)

def wideNumeral : Token.Numeral :=
  ⟨.minus, ⟨['1'], by simp, List.all_eq_true.1 (by decide)⟩,
    some ⟨['2', '5'], by simp, List.all_eq_true.1 (by decide)⟩,
    some ⟨'E', .inr rfl, .plus, ⟨['3'], by simp, List.all_eq_true.1 (by decide)⟩⟩⟩

theorem wideQuoted : Token.Quoted '\'' ['i', 't', '\\', '\'', 's'] ['i', 't', '\'', 's'] :=
  .plain (by decide) (by decide) (.plain (by decide) (by decide) (.escape
    (.plain (by decide) (by decide) .nil)))

def widePieces : List Token.Piece :=
  [⟨.word "age", "age".toList, ['\u2003', '\n'], .word (by decide),
      List.all_eq_true.1 (by decide)⟩,
    ⟨.mark .greaterEqual, Mark.greaterEqual.spelling.toList, ['\u00a0'], .mark _,
      List.all_eq_true.1 (by decide)⟩,
    ⟨.decimal (Decimal.toDouble ⟨true, 125, 1⟩), wideNumeral.text, [' '],
      .decimal (n := wideNumeral) rfl,
      List.all_eq_true.1 (by decide)⟩,
    ⟨.string "it's", _, [], .string (.inr rfl) wideQuoted, List.forall_mem_nil _⟩]

def limitKinds : List (Option Lexeme) :=
  [some (.word "select"), some (.mark .star), some (.word "from"), some (.word "God"),
    some (.word "limit"), some (.int 5), none]

def fiveGods : Query := ⟨.select ⟨"God", [], none, [], 5, 0⟩, .empty⟩

theorem parse_without_blanks : parse {} .identity "select*from God limit +5" = .ok fiveGods := by
  cbv

theorem kinds_without_blanks :
    (Token.ofChars "select*from God limit +5".toList).map Cursor.kindsOf = .ok limitKinds := by
  cbv

theorem wide_blanks_settle_reading :
    (Token.ofChars "\t age\u2003\n>=\u00a0-1.25E+3 'it\\'s'".toList).map Cursor.kindsOf =
      .ok [some (.word "age"), some (.mark .greaterEqual),
        some (.decimal (Decimal.toDouble ⟨true, 125, 1⟩)), some (.string "it's"), none] ∧
    (∃ (lead : List Char) (pieces : List Token.Piece), (∀ c ∈ lead, Text.isBlank c = true) ∧
      "select*from God limit +5".toList = lead ++ Token.Piece.joined pieces ∧
      limitKinds = pieces.map (fun p => some p.lexeme) ++ [none]) ∧
    parse {} .identity "select\u00a0* from\n God limit 05 " = .ok fiveGods := by
  refine ⟨?_, ?_, ?_⟩
  · exact kinds_settle_reading.1 ['\t', ' '] (List.all_eq_true.1 (by decide)) widePieces
      (by simp [Token.Piece.Apart, widePieces])
  · exact kinds_settle_reading.2.1 _ _ kinds_without_blanks
  · have hsame := kinds_settle_reading.2.2 {} .identity .select "select*from God limit +5"
      "select\u00a0* from\n God limit 05 " limitKinds (by decide +kernel) (by decide +kernel)
      kinds_without_blanks ?_
    · rw [parse_without_blanks] at hsame
      rcases hsame with ⟨q, hq, hq'⟩ | ⟨e, e', he, -⟩
      · rw [hq', hq]
      · cases he
    · cbv

end Query

end RecordQuery
