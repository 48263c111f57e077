import Mathlib
import RecordQuery.Proofs.Params.Prepared
import RecordQuery.Proofs.Statement.Writing

namespace RecordQuery

open Token (IsWord Spells)

namespace Written

variable {limits : Limits} {ts rest : List Token}

def ReadsWhere (limits : Limits) (ls : List Lexeme) (clause : Option Clause) : Prop :=
  ∀ {ts rest : List Token}, Spells ls ts rest → Stops rest →
    ∃ hle, readWhere limits ts = .ok ⟨clause, rest, hle⟩

theorem readsWhere_nil : ReadsWhere limits [] none := by
  intro ts rest hs hend
  cases hs
  refine ⟨Nat.le_refl _, ?_⟩
  rw [readWhere, skipKeyword_of_not_spells hend.noWhere]
  rfl

theorem readsWhere_of_chain {ls : List Lexeme} {first : Clause} {more : List (Connective × Clause)}
    (h : Chain limits 0 ls first more) :
    ReadsWhere limits (.word "where" :: ls) (some (chainOf first more)) := by
  intro ts rest hs hend
  obtain ⟨mid, hwhere, hs⟩ := Spells.uncons hs
  obtain ⟨_, hread⟩ := gives_readClause_iff.2 ⟨hend.connective, _, _, _, h, rfl, hs⟩
  obtain ⟨_, hskip⟩ := skipKeyword_of_spells hwhere
  refine ⟨?_, ?_⟩
  · have := hs.length_eq
    have := hwhere.length_eq
    omega
  · rw [readWhere, hskip]
    simp only [hread, Outcome.ok_map]
    rfl

theorem exists_readsWhere {ls : List Lexeme} {c : Option Condition} (h : Filtered limits ls c) :
    ∃ clause, ReadsWhere limits ls clause ∧
      Clause.resolveSome (fun name => name) clause = .ok c := by
  cases h with
  | none => exact ⟨none, readsWhere_nil, rfl⟩
  | some hchain hresolve =>
      exact ⟨_, readsWhere_of_chain hchain, Outcome.map_eq_ok.2 ⟨_, hresolve, rfl⟩⟩

theorem filtered_whereWords {c : Option Condition} (hc : ∀ d ∈ c, d.Readable)
    (hlimits : ∀ d ∈ c, limits.Cover d.needs) : Filtered limits (whereWords c) c := by
  cases c with
  | none => exact .none
  | some c => exact filtered_of_readable (hc c rfl) (hlimits c rfl)

theorem gives_readProjection {fields : List String} (hnone : comma? rest = none)
    (hs : Spells (fieldWords fields) ts rest) : Gives (readProjection ts) fields rest := by
  unfold fieldWords at hs
  split at hs
  · next hnil =>
      obtain ⟨source, ts, rfl, rfl⟩ := hs
      rw [hnil]
      exact ⟨Nat.lt_succ_self _, rfl⟩
  · next hne =>
      obtain ⟨mid, hfirst⟩ := spells_head hne hs
      obtain ⟨source, ts', rfl, -⟩ := hfirst
      exact gives_readWords "field name" hne hnone hs

theorem comma?_of_word {w : String} {ls : List Lexeme} (h : Spells (.word w :: ls) ts rest) :
    comma? ts = none := by
  obtain ⟨source, ts, rfl, -⟩ := h
  rfl

def readFront (limits : Limits) (ts : List Token) : Outcome (Select Clause × List Token) := do
  let ⟨_, rest, _⟩ ← expectKeyword "select" ts
  let ⟨fields, rest, _⟩ ← readProjection rest
  let ⟨entity, rest, _⟩ ← readSource .select rest
  let ⟨condition, rest, _⟩ ← readWhere limits rest
  .ok (⟨entity, fields, condition, [], 0, 0⟩, rest)

def within (q : Select Clause) (w : Window) : Written :=
  .select { q with sorts := w.sorts.getD [], limit := w.limit.getD 0, skip := w.skip.getD 0 }

theorem readSelect_eq (limits : Limits) (ts : List Token) :
    readSelect limits ts = readFront limits ts >>= fun p =>
      (readWindow ⟨none, none, none⟩ p.2).map (within p.1) := by
  simp only [readSelect, readFront, bind_assoc]
  rfl

section Statements

variable {fields : List String} {entity : String} {ls : List Lexeme} {condition : Option Condition}

theorem readFront_of_spells {clause : Option Clause} (hclause : ReadsWhere limits ls clause)
    (hs : Spells (.word "select" ::
      (fieldWords fields ++ .word "from" :: .word entity :: ls)) ts rest)
    (hstops : Stops rest) :
    readFront limits ts = .ok (⟨entity, fields, clause, [], 0, 0⟩, rest) := by
  obtain ⟨ts₁, hverb, hs⟩ := Spells.uncons hs
  obtain ⟨ts₂, hfields, hs⟩ := hs.split
  obtain ⟨ts₃, hsource, hs⟩ := @Spells.split _ _ [.word "from", .word entity] _ hs
  obtain ⟨_, hverb⟩ := gives_expectKeyword.2 hverb
  obtain ⟨_, hfields⟩ := gives_readProjection (comma?_of_word hsource) hfields
  obtain ⟨_, hsource⟩ := (@gives_readSource _ _ .select _).2 hsource
  obtain ⟨_, hwhere⟩ := hclause hs hstops
  unfold readFront
  simp only [hverb, hfields, hsource, hwhere, Outcome.ok_bind]

theorem readSelect_of_readsWhere {clause : Option Clause} {ss : List SortField}
    {skip limit : Option UInt64} (hclause : ReadsWhere limits ls clause)
    (hskip : ∀ n ∈ skip, n.toNat < countBound) (hlimit : ∀ n ∈ limit, n.toNat < countBound)
    (hs : Spells (.word "select" :: (fieldWords fields ++ .word "from" :: .word entity ::
      (ls ++ windowLexemes ss skip limit))) ts []) :
    readSelect limits ts = .ok (.select
      ⟨entity, fields, clause, ss.map SortField.key, limit.getD 0, skip.getD 0⟩) := by
  have hassoc : .word "select" :: (fieldWords fields ++ .word "from" :: .word entity ::
      (ls ++ windowLexemes ss skip limit)) =
      (.word "select" :: (fieldWords fields ++ .word "from" :: .word entity :: ls)) ++
        windowLexemes ss skip limit := by
    simp
  rw [hassoc] at hs
  obtain ⟨rest, hfront, hs⟩ := hs.split
  have hstops := (trails_windowLexemes ss skip limit).stops hs
  rw [readSelect_eq, readFront_of_spells hclause hfront hstops, Outcome.ok_bind,
    readWindow_of_spells hskip hlimit hs, Outcome.ok_map, within, getD_givenSorts]

theorem readSelect_of_spells {ss : List SortField} {skip limit : Option UInt64}
    (hfilter : Filtered limits ls condition) (hskip : ∀ n ∈ skip, n.toNat < countBound)
    (hlimit : ∀ n ∈ limit, n.toNat < countBound)
    (hs : Spells (.word "select" :: (fieldWords fields ++ .word "from" :: .word entity ::
      (ls ++ windowLexemes ss skip limit))) ts []) :
    ∃ w, readSelect limits ts = .ok w ∧ w.resolve .identity =
      .ok (.select ⟨entity, fields, condition, ss.map SortField.key, limit.getD 0, skip.getD 0⟩) := by
  obtain ⟨clause, hclause, hresolve⟩ := exists_readsWhere hfilter
  refine ⟨_, readSelect_of_readsWhere hclause hskip hlimit hs, ?_⟩
  refine Outcome.bind_eq_ok.2 ⟨condition, hresolve, ?_⟩
  simp [Naming.identity]

theorem exists_readRemoved {fields : List String} (hfirst : fields.head? ≠ some "from")
    {entity : String} {ls : List Lexeme}
    (hs : Spells (commaWords fields) ts rest)
    (hsource : Spells (.word "from" :: .word entity :: ls) rest []) :
    ∃ hle, readRemoved ts = .ok ⟨fields, rest, hle⟩ := by
  by_cases hnil : fields = []
  · subst hnil
    subst hs
    obtain ⟨source, ts', rfl, -⟩ := hsource
    exact ⟨Nat.le_refl _, if_pos (.inr rfl)⟩
  · obtain ⟨mid, hhead⟩ := spells_head hnil hs
    have hno : ∀ r, ¬ Spells [.word "from"] ts r := by
      rintro r ⟨source, ts', rfl, -⟩
      obtain ⟨source', ts'', heq, -⟩ := hhead
      injection heq with heq
      injection heq with heq
      injection heq with heq
      rw [List.head?_eq_some_head hnil, ← heq] at hfirst
      exact hfirst rfl
    have hne : ¬ (ts = [] ∨ (skipKeyword "from" ts).value = true) := by
      rw [skipKeyword_of_not_spells hno]
      rintro (rfl | h)
      · obtain ⟨source, ts', h, -⟩ := hhead
        cases h
      · cases h
    obtain ⟨hlt, hread⟩ := gives_readWords "field name" hnil (comma?_of_word hsource) hs
    refine ⟨Nat.le_of_lt hlt, ?_⟩
    rw [readRemoved, if_neg hne, hread]
    rfl

theorem readDelete_of_spells (hfilter : Filtered limits ls condition)
    (hfirst : fields.head? ≠ some "from")
    (hs : Spells (.word "delete" :: (commaWords fields ++ .word "from" :: .word entity :: ls)) ts
      []) :
    ∃ w, readDelete limits ts = .ok w ∧
      w.resolve .identity = .ok (.delete ⟨entity, fields, condition⟩) := by
  obtain ⟨ts₁, hverb, hs⟩ := Spells.uncons hs
  obtain ⟨ts₂, hfields, hs⟩ := hs.split
  -- a first field `from` would be taken for the keyword
  obtain ⟨_, hfields⟩ := exists_readRemoved hfirst hfields hs
  obtain ⟨ts₃, hsource, hs⟩ := @Spells.split _ _ [.word "from", .word entity] _ hs
  have hnil : Spells [] [] [] := rfl
  obtain ⟨_, hverb⟩ := gives_expectKeyword.2 hverb
  obtain ⟨_, hsource⟩ := (@gives_readSource _ _ .delete _).2 hsource
  obtain ⟨clause, hclause, hresolve⟩ := exists_readsWhere hfilter
  obtain ⟨_, hwhere⟩ := hclause hs (trails_nil.stops hnil)
  refine ⟨.delete ⟨entity, fields, clause⟩, ?_, ?_⟩
  · unfold readDelete
    simp only [hverb, hfields, hsource, hwhere, expectEnd, if_true, Outcome.ok_bind]
  · refine Outcome.bind_eq_ok.2 ⟨condition, hresolve, ?_⟩
    simp [Naming.identity]

end Statements

theorem exists_readSelect {q : Selection} (h : q.Legible)
    (hlimits : ∀ c ∈ q.condition, limits.Cover c.needs) (hs : Spells q.lexemes ts []) :
    ∃ w, readSelect limits ts = .ok w ∧ w.resolve .identity = .ok (.select q) := by
  rw [Select.lexemes, orderWords_eq, countWords_eq, countWords_eq] at hs
  obtain ⟨w, hread, hresolve⟩ := readSelect_of_spells (filtered_whereWords h.condition hlimits)
    (toNat_of_given h.skip) (toNat_of_given h.limit) hs
  have hkeys : (q.sorts.map SortField.ofKey).map SortField.key = q.sorts := by
    rw [List.map_map]
    exact List.map_id _
  rw [hkeys, getD_given, getD_given] at hresolve
  exact ⟨w, hread, hresolve⟩

theorem exists_readDelete {q : Deletion} (h : q.Legible)
    (hlimits : ∀ c ∈ q.condition, limits.Cover c.needs) (hs : Spells q.lexemes ts []) :
    ∃ w, readDelete limits ts = .ok w ∧ w.resolve .identity = .ok (.delete q) :=
  readDelete_of_spells (filtered_whereWords h.condition hlimits) h.first hs

end Written

namespace Command

def needs (s : Command) : Limits := (s.condition?.map Condition.needs).getD ⟨0, 0, 0, 0⟩

def Plain (s : Command) : Prop := ∀ c ∈ s.condition?, c.Plain

theorem cover_needs {limits : Limits} {s : Command} (h : limits.Cover s.needs) :
    ∀ c ∈ s.condition?, limits.Cover c.needs := by
  intro c hc
  rw [needs, hc] at h
  exact h

theorem exists_toList_text (s : Command) : ∃ cs, s.text.toList = s.verb.keyword.toList ++ cs := by
  cases s <;> simp [text, Statement.verb, Verb.keyword]

end Command

theorem Verb.keyword_of_ofKeyword? {word : String} {verb : Verb}
    (h : Verb.ofKeyword? word = some verb) : verb.keyword = word := by
  simpa using List.find?_some h

namespace Written

theorem verb_of_text {text : String} {verb : Verb} {cs : List Char}
    (h : text.toList = verb.keyword.toList ++ cs) :
    Verb.ofKeyword? (String.ofList (text.toList.take verbLength)) = some verb := by
  have htake : (verb.keyword.toList ++ cs).take verbLength = verb.keyword.toList := by
    cases verb <;> rfl
  rw [h, htake, String.ofList_toList, Verb.ofKeyword?_keyword]

theorem exists_toList_of_verb {text : String} {verb : Verb}
    (h : Verb.ofKeyword? (String.ofList (text.toList.take verbLength)) = some verb) :
    ∃ cs, text.toList = verb.keyword.toList ++ cs := by
  have htake : verb.keyword.toList = text.toList.take verbLength := by
    rw [Verb.keyword_of_ofKeyword? h, String.toList_ofList]
  exact ⟨text.toList.drop verbLength, by rw [htake, List.take_append_drop]⟩

theorem exists_spells_ofText {limits : Limits} {text : String} {verb : Verb} {cs : List Char}
    {ls : List Lexeme} (htext : text.toList = verb.keyword.toList ++ cs)
    (hwrites : Token.Writes ls text.toList) :
    ∃ ts, Spells ls ts [] ∧ ofText limits text = readStatement limits verb ts := by
  obtain ⟨ts, hts, hs⟩ := hwrites.eof
  refine ⟨ts, hs, ?_⟩
  unfold ofText
  rw [verb_of_text htext, hts]
  rfl

theorem exists_ofText {limits : Limits} {text : String} {verb : Verb} {cs : List Char}
    {ls : List Lexeme} {s : Command} (htext : text.toList = verb.keyword.toList ++ cs)
    (hwrites : Token.Writes ls text.toList)
    (hread : ∀ ts, Spells ls ts [] →
      ∃ w, readStatement limits verb ts = .ok w ∧ w.resolve .identity = .ok s) :
    ∃ w, ofText limits text = .ok w ∧ w.resolve .identity = .ok s := by
  obtain ⟨ts, hs, hofText⟩ := exists_spells_ofText htext hwrites
  rw [hofText]
  exact hread ts hs

end Written

namespace Command

theorem exists_ofText {limits : Limits} {s : Command} (h : s.Legible) (hplain : s.Plain)
    (hlimits : limits.Cover s.needs) :
    ∃ w, Written.ofText limits s.text = .ok w ∧ w.resolve .identity = .ok s := by
  have hneeds := cover_needs hlimits
  obtain ⟨cs, htext⟩ := s.exists_toList_text
  cases s with
  | select q =>
      apply Written.exists_ofText htext (Select.writes h hplain)
      intro ts hs
      exact Written.exists_readSelect h hneeds hs
  | delete q =>
      apply Written.exists_ofText htext (Delete.writes h hplain)
      intro ts hs
      exact Written.exists_readDelete h hneeds hs
  | insert | update => cases h

end Command

namespace Query

/-- What a query is carried out as: its statement, or that with every declared parameter bound to a
value without parameters in which no document has a key twice. -/
def Yields (q : Query) (s : Command) : Prop :=
  s = q.command ∨ ∃ p : Params,
    (∀ name ∈ q.params.names, ∃ v, p.value? name = some v ∧ v.params = [] ∧ v.Each Value.Keyed) ∧
      q.command.bind p = .ok s

variable {limits limits' : Limits} {text : String} {q : Query} {s : Command}

theorem legible_of_yields (h : parse limits .identity text = .ok q)
    (hverb : q.command.verb = .select ∨ q.command.verb = .delete) (hs : q.Yields s) :
    s.Legible := by
  have hlegible := legible_of_parse h hverb
  rcases hs with rfl | ⟨p, hp, hbind⟩
  · exact hlegible
  · have hvalue : ∀ name ∈ q.command.params, ∃ v, p.value? name = some v ∧ v.Each Value.Formed := by
      intro name hname
      have hdeclared : name ∈ q.params.names := by
        rw [params_of_parse h]
        exact List.mem_eraseDups.2 hname
      obtain ⟨v, hv, hclosed, hkeyed⟩ := hp name hdeclared
      exact ⟨v, hv, Value.each_formed_of_keyed hkeyed hclosed⟩
    have hsubst := Command.bind_eq_subst (p := p) (σ := fun name => (p.value? name).getD .null)
      (Prepared.admitted_of_parse h) fun name hname => by
        obtain ⟨v, hv, -⟩ := hvalue name hname
        rw [hv]
        rfl
    -- what replaces the parameters is formed, and so is the statement afterwards
    rw [hsubst] at hbind
    cases hbind
    refine hlegible.subst fun name hname => ?_
    obtain ⟨v, hv, hformed⟩ := hvalue name hname
    rw [hv]
    exact hformed

/-- The statement of a selection or a deletion that was read, as it is or with all its parameters
bound, is read again from its own text: under any limits that leave room for it the text is
accepted, as the same statement, and declares the parameters left in it. -/
theorem parse_text_of_yields (h : parse limits .identity text = .ok q)
    (hverb : q.command.verb = .select ∨ q.command.verb = .delete) (hs : q.Yields s)
    (hplain : s.Plain) (hlimits : limits'.Cover s.needs) :
    parse limits' .identity s.text = .ok ⟨s, ⟨s.params.eraseDups, []⟩⟩ := by
  obtain ⟨w, hw, hresolve⟩ := Command.exists_ofText (legible_of_yields h hverb hs) hplain hlimits
  have hparse : parse limits' .identity s.text =
      .ok ⟨s, Params.empty.declareAll w.params⟩ := by
    unfold parse
    rw [hw, Outcome.ok_bind, ofWritten, hresolve]
    rfl
  rw [hparse, Params.declareAll_empty, ← Written.params_resolve hresolve]

def grouped : Query :=
  ⟨.select ⟨"t", ["a"], some (.group .and [.compare .equal ⟨"a", .int 1⟩,
    .not (.compare .equal ⟨"b", .param "x"⟩), .compare .isIn ⟨"c", .param "y"⟩]),
    [⟨"a", .ascending⟩], 0, 2⟩, ⟨["x", "y"], []⟩⟩

theorem parse_grouped : parse {} .identity
    "select a from t where (a = 1 and not b = @x) and c in @y skip 2 order by a" =
      .ok grouped := by
  cbv

def groupedBound : Command :=
  .select ⟨"t", ["a"], some (.group .and [.compare .equal ⟨"a", .int 1⟩,
    .not (.compare .equal ⟨"b", .string "q\""⟩),
    .compare .isIn ⟨"c", .list [.float ⟨false, 0x4004000000000000, by decide⟩]⟩]),
    [⟨"a", .ascending⟩], 0, 2⟩

theorem grouped_reads_back :
    groupedBound.text =
      "select a from t where (a = 1 and not b = \"q\\\"\" and c in [2.5]) order by a asc skip 2" ∧
    parse groupedBound.needs .identity groupedBound.text = .ok ⟨groupedBound, ⟨[], []⟩⟩ ∧
    parse grouped.command.needs .identity grouped.command.text = .ok grouped := by
  refine ⟨?_, ?_, ?_⟩
  · decide +kernel
  · refine parse_text_of_yields parse_grouped (.inl rfl) (.inr ⟨⟨["x", "y"], [⟨"x", .string "q\""⟩,
      ⟨"y", .float ⟨false, 0x4004000000000000, by decide⟩⟩]⟩, ?_, rfl⟩) ?_ fun l => Nat.le_refl _
    · simp only [grouped, List.forall_mem_cons]
      exact ⟨⟨_, rfl, rfl, trivial⟩, ⟨_, rfl, rfl, trivial⟩, by simp⟩
    · rintro c ⟨⟩
      have hquote : Text.Plain "q\"" := by decide +kernel
      exact ⟨trivial, hquote, ⟨trivial, rfl, trivial⟩, trivial⟩
  · refine parse_text_of_yields parse_grouped (.inl rfl) (.inl rfl) ?_ fun l => Nat.le_refl _
    rintro c ⟨⟩
    exact ⟨trivial, trivial, trivial, trivial⟩

end Query

end RecordQuery
