import RecordQuery.Proofs.Statement.Recording
import RecordQuery.Proofs.Token.Taken

namespace RecordQuery

open Token (IsWord Spells)
open Record (columnChars)

namespace Named

variable {α : Type}

theorem putAll_cons_eq (c : Named α) (cs ds : List (Named α)) :
    ∃ v more, putAll (c :: cs) ds = ⟨c.name, v⟩ :: more := by
  induction ds generalizing c cs with
  | nil => exact ⟨c.value, cs, rfl⟩
  | cons d ds ih =>
      by_cases hname : c.name = d.name
      · have hput : put d.name d.value (c :: cs) = d :: cs := if_pos hname
        rw [hname]
        obtain ⟨v, more, hall⟩ := ih d cs
        exact ⟨v, more, by rw [← hall, ← hput]; rfl⟩
      · have hput : put d.name d.value (c :: cs) = c :: put d.name d.value cs := if_neg hname
        obtain ⟨v, more, hall⟩ := ih c (put d.name d.value cs)
        exact ⟨v, more, by rw [← hall, ← hput]; rfl⟩

end Named

namespace Written

variable {limits : Limits} {depth : Nat} {ls : List Lexeme} {cs : List Column} {c : Column}

theorem Entries.first (h : Entries limits depth ls cs) :
    ∃ l more key v cs', ls = l :: more ∧ cs = ⟨key, v⟩ :: cs' ∧ Key l key := by
  cases h with
  | one hkey | cons hkey => exact ⟨_, _, _, _, _, rfl, rfl, hkey⟩

theorem Braces.first (h : Braces limits depth ls (.document (c :: cs))) :
    ∃ l more, ls = l :: more ∧ Key l c.name := by
  generalize hv : Value.document (c :: cs) = v at h
  cases h with
  | empty => cases hv
  | items => cases hv
  | entries hcs =>
      obtain ⟨l, more, key, v, cs', rfl, rfl, hkey⟩ := hcs.first
      obtain ⟨v', more', hall⟩ := Named.putAll_cons_eq ⟨key, v⟩ [] cs'
      have hdocument : c :: cs = Named.putAll [⟨key, v⟩] cs' := Value.document.inj hv
      rw [hall, List.cons.injEq] at hdocument
      rw [hdocument.1]
      exact ⟨l, _, rfl, hkey⟩

end Written

namespace Token

variable {cs : List Char} {ts : List Token} {word entity : String}

theorem ofChars_front (hword : IsWord word) (hentity : IsWord entity)
    (h : ofChars (word.toList ++ ' ' :: (entity.toList ++ ' ' :: '(' :: cs)) = .ok ts) :
    ∃ source ts', Spells [.word word, .word entity] ts (⟨.mark .openParen, source⟩ :: ts') ∧
      ofChars cs = .ok ts' := by
  have hblank : Text.isBlank ' ' = true := by decide
  rw [ofChars_word hword breaks_blank, ofChars_of_blank hblank,
    ofChars_word hentity breaks_blank, ofChars_of_blank hblank, ofChars_mark rfl] at h
  obtain ⟨_, h₁, rfl⟩ := Outcome.map_eq_ok.1 h
  obtain ⟨_, h₂, rfl⟩ := Outcome.map_eq_ok.1 h₁
  obtain ⟨ts', h₃, rfl⟩ := Outcome.map_eq_ok.1 h₂
  exact ⟨_, ts', .cons (.cons rfl), h₃⟩

end Token

namespace Written

variable {limits : Limits} {ls : List Lexeme} {columns : List Column}

theorem exists_columnChars (c : Column) (columns : List Column) :
    ∃ more, columnChars (c :: columns) = c.name.toList ++ ' ' :: '=' :: more := by
  rw [columnChars, Token.toList_commaJoined, List.map_cons]
  have hfirst : (Record.assignmentText c).toList =
      c.name.toList ++ ' ' :: '=' :: ' ' :: c.value.text.toList := by
    simp [Record.assignmentText]
  cases columns with
  | nil =>
      rw [List.map_nil, List.intercalate_singleton, hfirst]
      exact ⟨_, rfl⟩
  | cons d columns =>
      rw [List.map_cons, List.intercalate_cons_cons, hfirst, List.append_assoc, List.append_assoc]
      exact ⟨_, rfl⟩

theorem assignable_of_body {source tail : List Char} {ts rest : List Token}
    (hts : Token.ofChars (columnChars columns ++ ')' :: tail) = .ok ts)
    (hbody : Body limits ls columns) (hs : Spells ls (⟨.mark .openParen, source⟩ :: ts) rest) :
    Record.Assignable columns := by
  have hspelled := Token.spelled_of_ofChars hts
  cases hbody with
  | payload h =>
      obtain ⟨_, _, heq, -⟩ := hs
      cases heq
  | assigned h =>
      obtain ⟨_, _, heq, hs⟩ := hs
      cases heq
      exact h.assignable fun l hl => (hs.forall_lexeme hspelled).1 l (List.mem_append_left _ hl)
  | enclosed h =>
      obtain ⟨_, _, heq, hs⟩ := hs
      cases heq
      cases columns with
      | nil =>
          -- the closing parenthesis stands where the brace would have to
          have hclose : Token.ofChars (')' :: tail) = .ok ts := hts
          rw [Token.ofChars_mark rfl] at hclose
          obtain ⟨_, -, rfl⟩ := Outcome.map_eq_ok.1 hclose
          obtain ⟨_, _, heq, -⟩ := hs
          cases heq
      | cons c columns =>
          obtain ⟨more, hmore⟩ := exists_columnChars c columns
          rw [hmore, List.append_assoc, List.cons_append, List.cons_append] at hts
          obtain ⟨l, ls, rfl, hkey⟩ := h.first
          cases hkey with
          | string =>
              obtain ⟨mid, hs, -⟩ := @Spells.split _ _ [.mark .openBrace, .string c.name] _ hs
              exact absurd hs (Token.not_spells_name hts)
          | word =>
              have hword : IsWord c.name := (hs.forall_lexeme hspelled).1 (.word c.name) (by simp)
              rw [Token.ofChars_word hword Token.breaks_blank] at hts
              obtain ⟨_, -, rfl⟩ := Outcome.map_eq_ok.1 hts
              obtain ⟨_, _, heq, -⟩ := hs
              cases heq

end Written

namespace Written

variable {limits : Limits} {columns : List Column} {cs : List Char} {ts : List Token}

theorem assignable_of_read {keyword entity : String} {verb : Verb} {k : Read Token Unit ts}
    {e : Read Token String k.rest} {b : Read Token (List Column) e.rest} {tail : List Char}
    (hkeyword : IsWord keyword) (hentity : IsWord entity)
    (hts : Token.ofChars (keyword.toList ++ ' ' :: (entity.toList ++ ' ' :: '(' ::
      (columnChars b.value ++ ')' :: tail))) = .ok ts)
    (hk : expectKeyword keyword ts = .ok k) (he : readEntity verb k.rest = .ok e)
    (hb : readBody limits e.rest = .ok b) : Record.Assignable b.value := by
  obtain ⟨source, ts', hfront, hmore⟩ := Token.ofChars_front hkeyword hentity hts
  obtain ⟨ls, hbody, hs⟩ := gives_readBody_iff.1 ⟨b.shorter, hb⟩
  have hread : Spells ([.word keyword] ++ ([.word e.value] ++ ls)) ts b.rest :=
    (gives_expectKeyword.1 ⟨k.shorter, hk⟩).append ((gives_readEntity.1 ⟨e.shorter, he⟩).append hs)
  obtain ⟨_, _, rfl, _, _, rfl, rfl⟩ := hfront
  obtain ⟨_, _, heq, _, _, heq', hs⟩ := hread
  cases heq
  injection heq' with _ hrest
  rw [← hrest] at hs
  exact assignable_of_body hmore hbody hs

end Written

namespace Command

variable {limits : Limits} {s : Command} {w : Written}

theorem assignable_of_ofText (hrecorded : s.Recorded) (h : Written.ofText limits s.text = .ok w)
    (hs : w.resolve .identity = .ok s) : Record.Assignable s.columns := by
  obtain ⟨cs, htext⟩ := s.exists_toList_text
  unfold Written.ofText at h
  rw [Written.verb_of_text htext] at h
  obtain ⟨ts, hts, h⟩ := Outcome.bind_eq_ok.1 h
  cases s with
  | insert r ttl =>
      obtain ⟨k, hk, h⟩ := Outcome.bind_eq_ok.1 h
      obtain ⟨e, he, h⟩ := Outcome.bind_eq_ok.1 h
      obtain ⟨b, hb, h⟩ := Outcome.bind_eq_ok.1 h
      obtain ⟨ttl', -, h⟩ := Outcome.bind_eq_ok.1 h
      cases h
      rw [Written.resolve_insert] at hs
      cases hs
      rw [toList_text_insert, Record.toList_text] at hts
      exact Written.assignable_of_read (Written.isWord_verb .insert) hrecorded.1.entity
        (by simpa using hts) hk he hb
  | update r =>
      obtain ⟨k, hk, h⟩ := Outcome.bind_eq_ok.1 h
      obtain ⟨e, he, h⟩ := Outcome.bind_eq_ok.1 h
      obtain ⟨b, hb, h⟩ := Outcome.bind_eq_ok.1 h
      obtain ⟨-, -, h⟩ := Outcome.bind_eq_ok.1 h
      cases h
      rw [Written.resolve_update] at hs
      cases hs
      rw [toList_text_update, Record.toList_text] at hts
      exact Written.assignable_of_read (Written.isWord_verb .update) hrecorded.entity hts hk he hb
  | select | delete => cases hrecorded

end Command

namespace Query

variable {limits limits' : Limits} {text : String} {q : Query}

theorem parse_eq_ok_iff {naming : Naming} (hq : q.params = ⟨q.command.params.eraseDups, []⟩) :
    parse limits naming text = .ok q ↔
      ∃ w, Written.ofText limits text = .ok w ∧ w.resolve naming = .ok q.command := by
  constructor
  · intro h
    obtain ⟨w, hw, h⟩ := Outcome.bind_eq_ok.1 h
    obtain ⟨s, hs, rfl⟩ := Outcome.map_eq_ok.1 h
    exact ⟨w, hw, hs⟩
  · rintro ⟨w, hw, hs⟩
    have hparse : parse limits naming text = .ok ⟨q.command, Params.empty.declareAll w.params⟩ := by
      rw [parse, hw, Outcome.ok_bind, ofWritten, hs]
      rfl
    have hparams : Params.empty.declareAll w.params = _ := params_of_parse hparse
    rw [hparse, hparams, ← hq]

theorem recorded_of_parse (h : parse limits .identity text = .ok q)
    (hverb : q.command.verb = .insert ∨ q.command.verb = .update) : q.command.Recorded := by
  obtain ⟨w, hw, hs⟩ := (parse_eq_ok_iff (params_of_parse h)).1 h
  exact Written.recorded_of_ofText hw hs hverb

theorem assignable_of_parse_text (h : parse limits .identity text = .ok q)
    (hverb : q.command.verb = .insert ∨ q.command.verb = .update)
    (hread : parse limits' .identity q.command.text = .ok q) :
    Record.Assignable q.command.columns := by
  obtain ⟨w, hw, hs⟩ := (parse_eq_ok_iff (params_of_parse h)).1 hread
  exact Command.assignable_of_ofText (recorded_of_parse h hverb) hw hs

/-- An insertion or an update that was read, in whichever form, is read again from its own text
where it has columns and words name all of them, and only there. -/
theorem parse_record_text_iff (h : parse limits .identity text = .ok q)
    (hverb : q.command.verb = .insert ∨ q.command.verb = .update)
    (hplain : ∀ c ∈ q.command.columns, c.value.Each Value.Plain)
    (hlimits : ∀ c ∈ q.command.columns, c.value.depth ≤ limits'.literalDepth) :
    parse limits' .identity q.command.text = .ok q ↔ Record.Assignable q.command.columns := by
  constructor
  · exact assignable_of_parse_text h hverb
  · intro hassignable
    exact (parse_eq_ok_iff (params_of_parse h)).2
      (Command.exists_ofText_of_recorded (recorded_of_parse h hverb) hassignable hplain hlimits)

def settled : Query :=
  ⟨.insert ⟨"God", [⟨"name", .param "who"⟩, ⟨"home", .list [.string "Rome", .int 2]⟩]⟩
    (some ⟨7_200_000_000_000⟩), ⟨["who"], []⟩⟩

theorem parse_settled : parse {} .identity
    "insert God \x7bname: @who, \"home\": [\"Rome\", 2]\x7d 120 minutes" = .ok settled := by
  cbv

theorem settled_reads_back :
    settled.command.text = "insert God (name = @who, home = [\"Rome\", 2]) 2 hours" ∧
      parse {} .identity settled.command.text = .ok settled := by
  refine ⟨by decide +kernel, (parse_record_text_iff parse_settled (.inl rfl) ?_ ?_).2 ?_⟩
  · have hrome : Text.Plain "Rome" := by decide +kernel
    exact List.forall_mem_cons.2 ⟨trivial,
      List.forall_mem_singleton.2 ⟨trivial, hrome, trivial, trivial⟩⟩
  · decide
  · exact ⟨by decide, List.forall_mem_cons.2 ⟨by decide +kernel,
      List.forall_mem_singleton.2 (by decide +kernel)⟩⟩

def keyed : Query := ⟨.insert ⟨"God", [⟨"first name", .string "Ada"⟩]⟩ none, ⟨[], []⟩⟩

def bare : Query := ⟨.insert ⟨"God", []⟩ none, ⟨[], []⟩⟩

theorem parse_keyed :
    parse {} .identity "insert God \x7b\"first name\": \"Ada\"\x7d" = .ok keyed := by
  cbv

theorem parse_bare : parse {} .identity "insert God \x7b\x7d" = .ok bare := by
  unfold bare
  cbv

/-- Documents give columns that are named by no word, or none, and these are not read back. -/
theorem keyed_and_bare_lost :
    (parse {} .identity "insert God \x7b\"first name\": \"Ada\"\x7d" = .ok keyed ∧
      ∀ limits, parse limits .identity keyed.command.text ≠ .ok keyed) ∧
    parse {} .identity "insert God \x7b\x7d" = .ok bare ∧
      ∀ limits, parse limits .identity bare.command.text ≠ .ok bare := by
  refine ⟨⟨parse_keyed, fun limits h => ?_⟩, parse_bare, fun limits h => ?_⟩
  · have hname : IsWord "first name" :=
      (assignable_of_parse_text parse_keyed (.inl rfl) h).2 ⟨_, .string "Ada"⟩ List.mem_cons_self
    revert hname
    decide +kernel
  · exact (assignable_of_parse_text parse_bare (.inl rfl) h).1 rfl

end Query

end RecordQuery
