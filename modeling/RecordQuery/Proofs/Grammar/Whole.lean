import Mathlib.Tactic.Choose
import RecordQuery.Proofs.Grammar.Settled
import RecordQuery.Proofs.Token.Writes

namespace RecordQuery.Written

open Token (Spells)

variable {limits : Limits} {depth : Nat} {ls ls' : List Lexeme} {ts mid rest : List Token}

structure Entry where
  key : Lexeme
  name : String
  isKey : Key key name
  value : List Lexeme

def Entry.lexemes (e : Entry) : List Lexeme := e.key :: .mark .colon :: e.value

def commaed (items : List (List Lexeme)) : List Lexeme := [.mark .comma].intercalate items

inductive Whole : List Lexeme → Prop
  | string (s : String) : Whole [.string s]
  | int (i : Int64) : Whole [.int i]
  | decimal (x : Double) : Whole [.decimal x]
  | param (name : String) : Whole [.param name]
  | word {word : String} {v : Value} (h : wordValue? word = some v) : Whole [.word word]
  | conversion {ls : List Lexeme} (name : String) (h : Whole ls) :
      Whole (.word "convert" :: .mark .openParen ::
        (ls ++ [.mark .comma, .word name, .mark .closeParen]))
  | noEntries : Whole [.mark .openBrace, .mark .closeBrace]
  | entries {es : List Entry} (hne : es ≠ []) (h : ∀ e ∈ es, Whole e.value) :
      Whole (.mark .openBrace :: (commaed (es.map Entry.lexemes) ++ [.mark .closeBrace]))
  | braced {items : List (List Lexeme)} (hne : items ≠ []) (h : ∀ ls ∈ items, Whole ls) :
      Whole (.mark .openBrace :: (commaed items ++ [.mark .closeBrace]))
  | noItems : Whole [.mark .openBracket, .mark .closeBracket]
  | bracketed {items : List (List Lexeme)} (hne : items ≠ []) (h : ∀ ls ∈ items, Whole ls) :
      Whole (.mark .openBracket :: (commaed items ++ [.mark .closeBracket]))

/-- What reading a value with the lexemes comes to at the depth, wherever they stand. -/
def IsOutcome (limits : Limits) (depth : Nat) (ls : List Lexeme) (o : Outcome Value) : Prop :=
  ∀ ts rest, Spells ls ts rest → Settles (readValue limits depth ts) o rest

section Opening

theorem Whole.opening (h : Whole ls) : Opening ls := by
  cases h with
  | string | int | decimal | param | word => exact .single fun _ h => nomatch h
  | conversion => exact .call _ _
  | noEntries | entries | braced => exact .brace _
  | noItems | bracketed => exact .bracket _

theorem commaed_cons (items : List (List Lexeme)) :
    commaed (ls :: items) = ls ∨ ∃ more, commaed (ls :: items) = ls ++ .mark .comma :: more := by
  cases items with
  | nil => exact .inl List.intercalate_singleton
  | cons next items =>
      refine .inr ⟨commaed (next :: items), ?_⟩
      rw [commaed, List.intercalate_cons_cons, List.append_assoc]
      rfl

theorem spells_first {items : List (List Lexeme)} {close : Mark}
    (hs : Spells (commaed (ls :: items) ++ [.mark close]) ts rest) :
    ∃ mid m more, (m = .comma ∨ m = close) ∧ Spells ls ts mid ∧
      Spells (.mark m :: more) mid rest := by
  rcases commaed_cons items with hone | ⟨more, hmore⟩
  · rw [hone] at hs
    obtain ⟨mid, hs, hend⟩ := hs.split
    exact ⟨mid, close, [], .inr rfl, hs, hend⟩
  · rw [hmore, List.append_assoc] at hs
    obtain ⟨mid, hs, hend⟩ := hs.split
    exact ⟨mid, .comma, _, .inl rfl, hs, hend⟩

theorem Whole.not_closing {items : List (List Lexeme)} {close : Mark}
    (hclose : close ≠ .openBrace ∧ close ≠ .openBracket) (hne : items ≠ [])
    (h : ∀ ls ∈ items, Whole ls) (hs : Spells (commaed items ++ [.mark close]) ts rest)
    (source : List Char) (left : List Token) : ts = ⟨.mark close, source⟩ :: left → False := by
  obtain ⟨ls, items, rfl⟩ := List.exists_cons_of_ne_nil hne
  obtain ⟨mid, m, more, -, hs, -⟩ := spells_first hs
  rintro rfl
  rcases (h ls List.mem_cons_self).opening.mark_opens hs with heq | heq
  · exact hclose.1 heq
  · exact hclose.2 heq

theorem Whole.items_startsEntry {items : List (List Lexeme)} {close : Mark}
    (hclose : close ≠ .colon) (hne : items ≠ []) (h : ∀ ls ∈ items, Whole ls)
    (hs : Spells (commaed items ++ [.mark close]) ts rest) : startsEntry ts = false := by
  obtain ⟨ls, items, rfl⟩ := List.exists_cons_of_ne_nil hne
  obtain ⟨mid, m, more, hm, hs, hend⟩ := spells_first hs
  refine (h ls List.mem_cons_self).opening.startsEntry_eq_false ?_ hs hend
  rcases hm with rfl | rfl
  · decide
  · exact hclose

theorem Key.startsEntry {l : Lexeme} {name : String} (h : Key l name) (source source' : List Char)
    (ts : List Token) : startsEntry (⟨l, source⟩ :: ⟨.mark .colon, source'⟩ :: ts) = true := by
  cases h <;> rfl

theorem startsEntry_of_entries {α : Type} {entry : α → Entry} {xs : List α} (hne : xs ≠ [])
    (hs : Spells (commaed (xs.map fun x => (entry x).lexemes) ++ [.mark .closeBrace]) ts rest) :
    startsEntry ts = true := by
  obtain ⟨x, xs, rfl⟩ := List.exists_cons_of_ne_nil hne
  rw [List.map_cons] at hs
  obtain ⟨mid, m, more, -, hs, -⟩ := spells_first hs
  obtain ⟨source, ts, rfl, source', ts, rfl, -⟩ := hs
  exact (entry x).isKey.startsEntry source source' ts

end Opening

section Outcomes

theorem settles_readItems {items : List (List Lexeme)} {close : Mark}
    {o : List Lexeme → Outcome Value} (hclose : close ≠ .comma) (hne : items ≠ [])
    (h : ∀ ls ∈ items, IsOutcome limits depth ls (o ls))
    (hs : Spells (commaed items ++ [.mark close]) ts rest) :
    Settles (readItems limits depth close ts) (items.mapM o) rest := by
  rw [← List.map_id items, commaed] at hs
  exact settles_separated hclose (readItems_eq close) hne h hs

theorem settles_readBraces {o : Outcome (List Value)} (hstart : startsEntry ts = false)
    (hopen : ∀ source left, ts = ⟨.mark .closeBrace, source⟩ :: left → False)
    (h : Settles (readItems limits depth .closeBrace ts) o rest) :
    Settles (readBraces limits depth ts) (o.map Value.list) rest := by
  rw [readBraces.eq_2 _ _ _ hopen, hstart, if_neg Bool.false_ne_true]
  exact h.map fun v hlt => ⟨hlt, rfl⟩

theorem settles_readBraces_entries {α : Type} {entry : α → Entry} {o : α → Outcome Value}
    {xs : List α} (hne : xs ≠ [])
    (h : ∀ x ∈ xs, IsOutcome limits depth (entry x).value (o x))
    (hs : Spells (commaed (xs.map fun x => (entry x).lexemes) ++ [.mark .closeBrace]) ts rest) :
    Settles (readBraces limits depth ts)
      ((xs.mapM fun x => (o x).map (⟨(entry x).name, ·⟩)).map documentOf) rest := by
  have hstart := startsEntry_of_entries hne hs
  have hopen : ∀ source left, ts = ⟨.mark .closeBrace, source⟩ :: left → False := by
    rintro source left rfl
    cases hstart
  have hentries : Settles (readEntries limits depth ts)
      (xs.mapM fun x => (o x).map (⟨(entry x).name, ·⟩)) rest := by
    refine settles_separated (by decide) readEntries_eq hne ?_ hs
    intro x hx ts rest hs
    exact settles_field (fun _ _ hkey => readKey_of_key (entry x).isKey hkey) (h x hx) hs
  rw [readBraces.eq_2 _ _ _ hopen, if_pos hstart]
  exact hentries.map fun v hlt => ⟨hlt, rfl⟩

def conversionOutcome (name : String) (v : Value) : Outcome Value :=
  if v.params ≠ [] then .error (.malformed .convertParameter "")
  else do v.convert (← ScalarType.ofName name)

theorem settles_readConversion {o : Outcome Value} {name : String}
    (h : IsOutcome limits depth ls o)
    (hs : Spells (ls ++ [.mark .comma, .word name, .mark .closeParen]) ts rest) :
    Settles (readConversion limits depth ts) (o >>= conversionOutcome name) rest := by
  obtain ⟨mid, hs, hend⟩ := hs.split
  obtain ⟨mid₁, hcomma, hend⟩ := hend.uncons
  obtain ⟨mid₂, hname, hclose⟩ := hend.uncons
  obtain ⟨_, hcomma⟩ := gives_expectMark.2 hcomma
  obtain ⟨_, hname⟩ := (gives_expectWord "type name").2 hname
  obtain ⟨_, hclose⟩ := gives_expectMark.2 hclose
  rw [readConversion]
  refine (h _ _ hs).bind fun v hlt _ => ?_
  unfold conversionOutcome
  by_cases hparams : v.params ≠ []
  · simp only [if_pos hparams]
    exact settles_at _ _
  · simp only [if_neg hparams, hcomma, hname, hclose, Outcome.ok_bind]
    refine settles_bind fun t _ => ?_
    cases v.convert t with
    | ok w => exact ⟨_, rfl⟩
    | error e => exact settles_error

theorem Literal.isOutcome {v : Value} (h : Literal limits depth ls v) :
    IsOutcome limits depth ls (.ok v) :=
  fun _ _ hs => h.gives hs

theorem exists_outcome_behind {l : Lexeme} {read : Nat → (ts : List Token) → Reading Value ts}
    (hread : ∀ source ts, readValue limits depth (⟨l, source⟩ :: ts) = (do
      let deep ← deeper limits .literalDepth depth
      let r ← read deep ts
      .ok (r.behind ⟨l, source⟩)))
    (h : ∀ deep, ∃ o, ∀ ts rest, Spells ls ts rest → Settles (read deep ts) o rest) :
    ∃ o, IsOutcome limits depth (l :: ls) o := by
  cases hdeep : deeper limits .literalDepth depth with
  | error e =>
      refine ⟨.error e, ?_⟩
      rintro ts rest ⟨source, ts, rfl, hs⟩
      rw [hread, hdeep]
      exact settles_error
  | ok deep =>
      obtain ⟨o, ho⟩ := h deep
      refine ⟨o, ?_⟩
      rintro ts rest ⟨source, ts, rfl, hs⟩
      rw [hread, hdeep, Outcome.ok_bind]
      exact (ho ts rest hs).lift fun v hlt => ⟨Nat.lt_succ_of_lt hlt, rfl⟩

theorem exists_outcome_brace
    (h : ∀ deep, ∃ o, ∀ ts rest, Spells ls ts rest → Settles (readBraces limits deep ts) o rest) :
    ∃ o, IsOutcome limits depth (.mark .openBrace :: ls) o := by
  refine exists_outcome_behind (fun source ts => ?_) h
  rw [readValue]

theorem exists_outcome_bracket
    (h : ∀ deep, ∃ o, ∀ ts rest, Spells ls ts rest → Settles (readBrackets limits deep ts) o rest) :
    ∃ o, IsOutcome limits depth (.mark .openBracket :: ls) o := by
  refine exists_outcome_behind (fun source ts => ?_) h
  rw [readValue]

theorem exists_outcome_conversion {name : String}
    (h : ∀ deep, ∃ o, IsOutcome limits deep ls o) :
    ∃ o, IsOutcome limits depth (.word "convert" :: .mark .openParen ::
      (ls ++ [.mark .comma, .word name, .mark .closeParen])) o := by
  have hword : wordValue? "convert" = none := rfl
  cases hdeep : deeper limits .literalDepth depth with
  | error e =>
      refine ⟨.error e, ?_⟩
      rintro ts rest ⟨source, ts, rfl, source', ts, rfl, hs⟩
      rw [readValue]
      simp only [hword, if_pos, hdeep]
      exact settles_error
  | ok deep =>
      obtain ⟨o, ho⟩ := h deep
      refine ⟨o >>= conversionOutcome name, ?_⟩
      rintro ts rest ⟨source, ts, rfl, source', ts, rfl, hs⟩
      rw [readValue]
      simp only [hword, if_pos, hdeep, Outcome.ok_bind]
      exact (settles_readConversion ho hs).lift fun v hlt =>
        ⟨Nat.lt_succ_of_lt (Nat.lt_succ_of_lt hlt), rfl⟩

theorem Whole.exists_outcome (h : Whole ls) (limits : Limits) :
    ∀ depth, ∃ o, IsOutcome limits depth ls o := by
  induction h with
  | string s => exact fun depth => ⟨_, (Literal.string s).isOutcome⟩
  | int i => exact fun depth => ⟨_, (Literal.int i).isOutcome⟩
  | decimal x => exact fun depth => ⟨_, (Literal.decimal x).isOutcome⟩
  | param name => exact fun depth => ⟨_, (Literal.param name).isOutcome⟩
  | word h => exact fun depth => ⟨_, (Literal.word h).isOutcome⟩
  | conversion name h ih => exact fun depth => exists_outcome_conversion ih
  | noEntries =>
      intro depth
      apply exists_outcome_brace
      intro deep
      exact ⟨.ok (.document []), fun ts rest hs => Braces.empty.gives hs⟩
  | @entries es hne h ih =>
      intro depth
      apply exists_outcome_brace
      intro deep
      choose! o ho using fun e he => ih e he deep
      refine ⟨(es.mapM fun e => (o e).map (⟨e.name, ·⟩)).map documentOf, fun ts rest hs => ?_⟩
      exact @settles_readBraces_entries _ _ _ _ _ id o es hne ho hs
  | @braced items hne h ih =>
      intro depth
      apply exists_outcome_brace
      intro deep
      choose! o ho using fun ls hls => ih ls hls deep
      refine ⟨(items.mapM o).map Value.list, fun ts rest hs => ?_⟩
      have hread := settles_readItems (by decide) hne ho hs
      exact settles_readBraces (items_startsEntry (by decide) hne h hs)
        (not_closing (by decide) hne h hs) hread
  | noItems =>
      intro depth
      apply exists_outcome_bracket
      intro deep
      refine ⟨.ok (.list []), ?_⟩
      rintro ts rest ⟨source, ts, rfl, rfl⟩
      exact ⟨Nat.lt_succ_self _, by rw [readBrackets]; rfl⟩
  | @bracketed items hne h ih =>
      intro depth
      apply exists_outcome_bracket
      intro deep
      choose! o ho using fun ls hls => ih ls hls deep
      refine ⟨(items.mapM o).map Value.list, fun ts rest hs => ?_⟩
      rw [readBrackets.eq_2 _ _ _ (not_closing (by decide) hne h hs)]
      exact (settles_readItems (by decide) hne ho hs).map fun v hlt => ⟨hlt, rfl⟩

end Outcomes

section Reads

theorem commaed_cons_of_ne_nil {items : List (List Lexeme)} (hne : items ≠ []) (ls : List Lexeme) :
    commaed (ls :: items) = ls ++ .mark .comma :: commaed items := by
  obtain ⟨next, more, rfl⟩ := List.exists_cons_of_ne_nil hne
  rw [commaed, List.intercalate_cons_cons, List.append_assoc]
  rfl

mutual

theorem Literal.whole : ∀ {depth : Nat} {ls : List Lexeme} {v : Value},
    Literal limits depth ls v → Whole ls
  | _, _, _, .string s => .string s
  | _, _, _, .int i => .int i
  | _, _, _, .decimal x => .decimal x
  | _, _, _, .param name => .param name
  | _, _, _, .word h => .word h
  | _, _, _, .conversion _ hv _ _ _ => .conversion _ hv.whole
  | _, _, _, .braces _ hv => hv.whole
  | _, _, _, .noItems _ => .noItems
  | _, _, _, .items _ hvs => by
      obtain ⟨items, hne, rfl, hitems⟩ := hvs.exists_whole
      exact .bracketed hne hitems

theorem Braces.whole : ∀ {depth : Nat} {ls : List Lexeme} {v : Value},
    Braces limits depth ls v → Whole (.mark .openBrace :: ls)
  | _, _, _, .empty => .noEntries
  | _, _, _, .entries hcs => by
      obtain ⟨es, hne, rfl, hes⟩ := hcs.exists_whole
      exact .entries hne hes
  | _, _, _, .items hvs => by
      obtain ⟨items, hne, rfl, hitems⟩ := hvs.exists_whole
      exact .braced hne hitems

theorem Items.exists_whole : ∀ {depth : Nat} {ls : List Lexeme} {vs : List Value},
    Items limits depth ls vs → ∃ items, items ≠ [] ∧ ls = commaed items ∧ ∀ l ∈ items, Whole l
  | _, ls, _, .one hv =>
      ⟨[ls], List.cons_ne_nil _ _, List.intercalate_singleton.symm,
        List.forall_mem_singleton.2 hv.whole⟩
  | _, _, _, .cons hv hvs => by
      obtain ⟨items, hne, rfl, hitems⟩ := hvs.exists_whole
      exact ⟨_ :: items, List.cons_ne_nil _ _, (commaed_cons_of_ne_nil hne _).symm,
        List.forall_mem_cons.2 ⟨hv.whole, hitems⟩⟩

theorem Entries.exists_whole : ∀ {depth : Nat} {ls : List Lexeme} {cs : List Column},
    Entries limits depth ls cs → ∃ es : List Entry, es ≠ [] ∧
      ls = commaed (es.map Entry.lexemes) ∧ ∀ e ∈ es, Whole e.value
  | _, _, _, @Entries.one _ _ l key ls _ hkey hv =>
      ⟨[⟨l, key, hkey, ls⟩], List.cons_ne_nil _ _, List.intercalate_singleton.symm,
        List.forall_mem_singleton.2 hv.whole⟩
  | _, _, _, @Entries.cons _ _ l key ls _ _ _ hkey hv hcs => by
      obtain ⟨es, hne, rfl, hes⟩ := hcs.exists_whole
      have hmap : es.map Entry.lexemes ≠ [] := by simpa using hne
      refine ⟨⟨l, key, hkey, ls⟩ :: es, List.cons_ne_nil _ _, ?_,
        List.forall_mem_cons.2 ⟨hv.whole, hes⟩⟩
      rw [List.map_cons, commaed_cons_of_ne_nil hmap]
      rfl

end

/-- The text is split into the lexemes of one whole value. -/
def IsWhole (s : String) : Prop :=
  ∃ ts, Token.ofChars s.toList = .ok ts ∧ Whole (ts.map Token.lexeme)

theorem isWhole_param {name : String} (h : Token.IsName name) : IsWhole ("@" ++ name) := by
  obtain ⟨ts, hts, hs⟩ := (Token.Writes.param h).eof
  refine ⟨ts, by rw [String.toList_append]; exact hts, ?_⟩
  rw [hs.map_lexeme]
  exact .param name

theorem isWhole_of_literal {s : String} {v : Value} (h : literal s = .ok v) : IsWhole s := by
  obtain ⟨-, ts, ls, hts, hls, hs⟩ := literal_eq_ok.1 h
  refine ⟨ts, hts, ?_⟩
  rw [hs.map_lexeme, List.map_nil, List.append_nil]
  exact hls.whole

end Reads

end RecordQuery.Written
