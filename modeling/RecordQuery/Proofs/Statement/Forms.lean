import RecordQuery.Proofs.Grammar.Whole
import RecordQuery.Proofs.Outcome.Collected
import RecordQuery.Proofs.Statement.ReadBack
import RecordQuery.Proofs.Token.Following
import RecordQuery.Proofs.Token.Quoted
import RecordQuery.Proofs.Value.Writing

namespace RecordQuery

open Token (IsWord Spells Writes)

namespace Written

inductive KeyStyle where
  | plain
  | quoted
  | apostrophed
  deriving DecidableEq, Repr

namespace KeyStyle

def text : KeyStyle → String → String
  | .plain, name => name
  | .quoted, name => "\"" ++ name ++ "\""
  | .apostrophed, name => "'" ++ name ++ "'"

def lexeme : KeyStyle → String → Lexeme
  | .plain, name => .word name
  | .quoted, name | .apostrophed, name => .string name

theorem key (k : KeyStyle) (name : String) : Key (k.lexeme name) name := by
  cases k with
  | plain => exact .word name
  | quoted | apostrophed => exact .string name

end KeyStyle

theorem KeyStyle.writes (k : KeyStyle) {name : String} (h : IsWord name) :
    Writes [k.lexeme name] (k.text name).toList := by
  cases k with
  | plain => exact .word h
  | quoted =>
      have htext : (KeyStyle.quoted.text name).toList = '"' :: (name.toList ++ ['"']) := by
        simp [text]
      rw [htext]
      exact .between (.inl rfl) h
  | apostrophed =>
      have htext : (KeyStyle.apostrophed.text name).toList = '\'' :: (name.toList ++ ['\'']) := by
        simp [text]
      rw [htext]
      exact .between (.inr rfl) h

inductive BodyForm where
  | assigned
  | document (style : String → KeyStyle)
  | enclosed (style : String → KeyStyle)

namespace BodyForm

def opening : BodyForm → String
  | .assigned => "("
  | .document _ => "\x7b"
  | .enclosed _ => "(\x7b"

def closing : BodyForm → String
  | .assigned => ")"
  | .document _ => "\x7d"
  | .enclosed _ => "\x7d)"

def fieldText : BodyForm → Named String → String
  | .assigned, f => f.name ++ " = " ++ f.value
  | .document style, f | .enclosed style, f => (style f.name).text f.name ++ ": " ++ f.value

def text (form : BodyForm) (fields : List (Named String)) : String :=
  form.opening ++ Text.commaJoined (fields.map form.fieldText) ++ form.closing

def statement (form : BodyForm) (verb : Verb) (entity : String) (fields : List (Named String))
    (rest : String) : String :=
  verb.keyword ++ " " ++ entity ++ " " ++ form.text fields ++ rest

def fieldLexemes : BodyForm → Named (List Lexeme) → List Lexeme
  | .assigned, f => .word f.name :: .mark .equal :: f.value
  | .document style, f | .enclosed style, f =>
      (style f.name).lexeme f.name :: .mark .colon :: f.value

def openingLexemes : BodyForm → List Lexeme
  | .assigned => [.mark .openParen]
  | .document _ => [.mark .openBrace]
  | .enclosed _ => [.mark .openParen, .mark .openBrace]

def closingLexemes : BodyForm → List Lexeme
  | .assigned => [.mark .closeParen]
  | .document _ => [.mark .closeBrace]
  | .enclosed _ => [.mark .closeBrace, .mark .closeParen]

end BodyForm

section Texts

variable {fields : List (Named String)} {lexemes : Named String → List Lexeme} {entity : String}

def fieldsLexemes (form : BodyForm) (lexemes : Named String → List Lexeme)
    (fields : List (Named String)) : List Lexeme :=
  commaed (fields.map fun f => form.fieldLexemes ⟨f.name, lexemes f⟩)

theorem writes_field (form : BodyForm) {f : Named String} {ls : List Lexeme} (hname : IsWord f.name)
    (h : Writes ls f.value.toList) :
    Writes (form.fieldLexemes ⟨f.name, ls⟩) (form.fieldText f).toList := by
  cases form with
  | assigned =>
      have htext : (BodyForm.assigned.fieldText f).toList =
          f.name.toList ++ ' ' :: '=' :: ' ' :: f.value.toList := by
        simp [BodyForm.fieldText]
      have hequal : Writes (.mark .equal :: ls) ('=' :: ' ' :: f.value.toList) := h.blank.mark rfl
      rw [htext]
      exact (Writes.word hname).append hequal.blank Token.breaks_blank
  | document style | enclosed style =>
      have hcolon : Writes (.mark .colon :: ls) (':' :: ' ' :: f.value.toList) := h.blank.mark rfl
      have hfield := ((style f.name).writes hname).append hcolon (Token.breaks_cons (by decide))
      simpa [BodyForm.fieldText, BodyForm.fieldLexemes] using hfield

theorem leads_statement (form : BodyForm) (verb : Verb) (hentity : IsWord entity)
    (hnames : ∀ f ∈ fields, IsWord f.name)
    (hvalues : ∀ f ∈ fields, Writes (lexemes f) f.value.toList) :
    Token.Leads (.word verb.keyword :: .word entity ::
        (form.openingLexemes ++ fieldsLexemes form lexemes fields ++ form.closingLexemes))
      (verb.keyword ++ " " ++ entity ++ " " ++ form.text fields).toList := by
  have hfields : Writes (fieldsLexemes form lexemes fields)
      (Text.commaJoined (fields.map form.fieldText)).toList := by
    apply Writes.commaJoined
    intro f hf
    exact writes_field form (hnames f hf) (hvalues f hf)
  have hfront {ls : List Lexeme} {cs : List Char} (h : Writes ls cs) :
      Writes (.word verb.keyword :: .word entity :: ls)
        (verb.keyword.toList ++ ' ' :: (entity.toList ++ ' ' :: cs)) :=
    writes_word (isWord_verb verb) (writes_word hentity h)
  cases form with
  | assigned =>
      have hopen := hfront (hfields.mark (c := '(') rfl)
      have hclose := hopen.leads (c := ')') rfl (by decide)
      simpa [BodyForm.text, BodyForm.opening, BodyForm.closing, BodyForm.openingLexemes,
        BodyForm.closingLexemes] using hclose
  | document style =>
      have hopen := hfront (hfields.mark (c := '\x7b') rfl)
      have hclose := hopen.leads (c := '\x7d') rfl (by decide)
      simpa [BodyForm.text, BodyForm.opening, BodyForm.closing, BodyForm.openingLexemes,
        BodyForm.closingLexemes] using hclose
  | enclosed style =>
      have hopen := hfront ((hfields.mark (c := '\x7b') rfl).mark (c := '(') rfl)
      have hclose := hopen.leads (c := '\x7d') rfl (by decide)
      simpa [BodyForm.text, BodyForm.opening, BodyForm.closing, BodyForm.openingLexemes,
        BodyForm.closingLexemes] using hclose.mark (c := ')') rfl

end Texts

section Reading

variable {limits : Limits} {ts rest : List Token} {fields : List (Named String)}
  {lexemes : Named String → List Lexeme} {outcome : Named String → Outcome Value}

def columnsOutcome (outcome : Named String → Outcome Value) (fields : List (Named String)) :
    Outcome (List Column) :=
  fields.mapM fun f => (outcome f).map (⟨f.name, ·⟩)

theorem map_name_columnsOutcome {cs : List Column} (h : columnsOutcome outcome fields = .ok cs) :
    cs.map Named.name = fields.map Named.name := by
  refine Outcome.map_eq_of_mapM ?_ h
  intro f _ c hc
  obtain ⟨v, -, rfl⟩ := Outcome.map_eq_ok.1 hc
  rfl

theorem settles_readAssignments (hne : fields ≠ [])
    (h : ∀ f ∈ fields, IsOutcome limits 0 (lexemes f) (outcome f))
    (hs : Spells (fieldsLexemes .assigned lexemes fields ++ [.mark .closeParen]) ts rest) :
    Settles (readAssignments limits ts) (columnsOutcome outcome fields) rest := by
  refine settles_separated (by decide) readAssignments_eq hne ?_ hs
  intro f hf ts rest hs
  exact settles_field (fun _ _ hname => (gives_expectWord "field name").2 hname) (h f hf) hs

def entryOf (style : String → KeyStyle) (lexemes : Named String → List Lexeme)
    (f : Named String) : Entry :=
  ⟨(style f.name).lexeme f.name, f.name, (style f.name).key f.name, lexemes f⟩

theorem settles_readPayload (style : String → KeyStyle) (hne : fields ≠ [])
    (hdistinct : (fields.map Named.name).Nodup)
    (h : ∀ f ∈ fields, IsOutcome limits 0 (lexemes f) (outcome f))
    (hs : Spells (fieldsLexemes (.document style) lexemes fields ++ [.mark .closeBrace]) ts rest) :
    Settles (readPayload limits ts) (columnsOutcome outcome fields) rest := by
  have hbraces :
      Settles (readBraces limits 0 ts) ((columnsOutcome outcome fields).map documentOf) rest :=
    @settles_readBraces_entries _ _ _ _ _ (entryOf style lexemes) outcome fields hne h hs
  unfold readPayload
  cases hcolumns : columnsOutcome outcome fields with
  | error e =>
      rw [hcolumns] at hbraces
      obtain ⟨e', hread, he⟩ := hbraces
      rw [hread]
      exact ⟨e', rfl, he⟩
  | ok cs =>
      -- the names are distinct, so no entry takes the place of another
      rw [hcolumns, Outcome.ok_map, documentOf_of_nodup] at hbraces
      · obtain ⟨hlt, hread⟩ := hbraces
        rw [hread]
        exact ⟨hlt, rfl⟩
      · rwa [map_name_columnsOutcome hcolumns]

theorem settles_readBody (form : BodyForm) (hne : fields ≠ [])
    (hdistinct : (fields.map Named.name).Nodup)
    (h : ∀ f ∈ fields, IsOutcome limits 0 (lexemes f) (outcome f))
    (hs : Spells (form.openingLexemes ++ fieldsLexemes form lexemes fields ++ form.closingLexemes)
      ts rest) :
    Settles (readBody limits ts) (columnsOutcome outcome fields) rest := by
  cases form with
  | assigned =>
      obtain ⟨source, ts, rfl, hs⟩ := hs
      -- a word stands behind the parenthesis, so this is not a document in parentheses
      have hopen : ∀ source' left, ts = ⟨.mark .openBrace, source'⟩ :: left → False := by
        obtain ⟨f, fs, rfl⟩ := List.exists_cons_of_ne_nil hne
        rw [fieldsLexemes, List.map_cons] at hs
        obtain ⟨mid, m, more, -, hs, -⟩ := spells_first hs
        rintro source' left rfl
        obtain ⟨_, _, heq, -⟩ := hs
        cases heq
      rw [readBody.eq_3 limits source ts hopen]
      exact (settles_readAssignments hne h hs).lift fun v hlt => ⟨Nat.lt_succ_of_lt hlt, rfl⟩
  | document style =>
      obtain ⟨source, ts, rfl, hs⟩ := hs
      rw [readBody]
      exact (settles_readPayload style hne hdistinct h hs).lift fun v hlt =>
        ⟨Nat.lt_succ_of_lt hlt, rfl⟩
  | enclosed style =>
      obtain ⟨source, ts, rfl, source', ts, rfl, hs⟩ := hs
      replace hs : Spells ((fieldsLexemes (.document style) lexemes fields ++
          [.mark .closeBrace]) ++ [.mark .closeParen]) ts rest := by
        rw [List.append_assoc]
        exact hs
      obtain ⟨mid, hs, hclose⟩ := hs.split
      obtain ⟨_, hclose⟩ := gives_expectMark.2 hclose
      rw [readBody]
      refine (settles_readPayload style hne hdistinct h hs).lift fun v hlt => ?_
      simp only [hclose, Outcome.ok_bind]
      exact ⟨_, rfl⟩

def recordOutcome (verb : Verb) (entity : String) (columns : Outcome (List Column))
    (rest : List Token) : Outcome Written := do
  let columns ← columns
  match verb with
  | .insert => (readLastTtl rest).map (.insert ⟨entity, columns⟩ ·)
  | _ => (expectEnd rest).map fun _ => .update ⟨entity, columns⟩

theorem unplaced_readStatement {verb : Verb} (hverb : verb = .insert ∨ verb = .update)
    {entity : String} {ls : List Lexeme} {columns : Outcome (List Column)}
    (hbody : ∀ ts, Spells ls ts rest → Settles (readBody limits ts) columns rest)
    (hs : Spells (.word verb.keyword :: .word entity :: ls) ts rest) :
    (readStatement limits verb ts).unplaced =
      (recordOutcome verb entity columns rest).unplaced := by
  obtain ⟨mid, hkeyword, hs⟩ := hs.uncons
  obtain ⟨mid', hentity, hs⟩ := hs.uncons
  obtain ⟨_, hkeyword⟩ := gives_expectKeyword.2 hkeyword
  obtain ⟨_, hentity⟩ := (@gives_readEntity mid mid' verb entity).2 hentity
  have hsettles := hbody mid' hs
  rcases hverb with rfl | rfl
  · rw [readStatement, readInsert]
    simp only [Verb.keyword] at hkeyword
    simp only [hkeyword, hentity, Outcome.ok_bind]
    refine hsettles.unplaced_bind fun columns hlt => ?_
    cases readLastTtl rest <;> rfl
  · rw [readStatement, readUpdate]
    simp only [Verb.keyword] at hkeyword
    simp only [hkeyword, hentity, Outcome.ok_bind]
    refine hsettles.unplaced_bind fun columns hlt => ?_
    cases expectEnd rest <;> rfl

theorem exists_unplaced_ofText (limits : Limits) {entity : String} (hentity : IsWord entity)
    (hne : fields ≠ []) (hnames : ∀ f ∈ fields, IsWord f.name)
    (hdistinct : (fields.map Named.name).Nodup) (hvalues : ∀ f ∈ fields, IsWhole f.value) :
    ∃ columns : Outcome (List Column), ∀ (form : BodyForm) (verb : Verb) (rest : String),
      verb = .insert ∨ verb = .update →
      (ofText limits (form.statement verb entity fields rest)).unplaced =
        (Token.ofChars rest.toList >>= recordOutcome verb entity columns).unplaced := by
  have hlexemes : ∀ f ∈ fields, ∃ ls, Writes ls f.value.toList ∧ ∃ o, IsOutcome limits 0 ls o := by
    intro f hf
    obtain ⟨ts, hts, hwhole⟩ := hvalues f hf
    exact ⟨_, Token.writes_of_ofChars hts, hwhole.exists_outcome limits 0⟩
  choose! lexemes hwrites houtcome using hlexemes
  choose! outcome houtcome using houtcome
  refine ⟨columnsOutcome outcome fields, fun form verb rest hverb => ?_⟩
  obtain ⟨front, hfront, hsplit⟩ :=
    leads_statement form verb hentity hnames hwrites rest.toList
  have htext : (form.statement verb entity fields rest).toList =
      verb.keyword.toList ++ (" " ++ entity ++ " " ++ form.text fields ++ rest).toList := by
    simp [BodyForm.statement]
  unfold ofText
  rw [verb_of_text htext]
  dsimp only
  rw [BodyForm.statement, String.toList_append, hsplit]
  cases Token.ofChars rest.toList with
  | error e => rfl
  | ok ts =>
      have hs := Token.spells_append front ts
      rw [hfront] at hs
      refine unplaced_readStatement hverb ?_ hs
      intro ts' hs'
      exact settles_readBody form hne hdistinct houtcome hs'

end Reading

end Written

namespace Query

open Written (BodyForm IsWhole)

variable {verb : Verb} {entity : String} {fields : List (Named String)}

theorem unplaced_parse_eq (hverb : verb = .insert ∨ verb = .update) (hentity : IsWord entity)
    (hne : fields ≠ []) (hnames : ∀ f ∈ fields, IsWord f.name)
    (hdistinct : (fields.map Named.name).Nodup) (hvalues : ∀ f ∈ fields, IsWhole f.value)
    (limits : Limits) (naming : Naming) (rest : String) (form form' : BodyForm) :
    (parse limits naming (form.statement verb entity fields rest)).unplaced =
      (parse limits naming (form'.statement verb entity fields rest)).unplaced := by
  obtain ⟨columns, h⟩ :=
    Written.exists_unplaced_ofText limits hentity hne hnames hdistinct hvalues
  exact Outcome.unplaced_bind_congr ((h form verb rest hverb).trans (h form' verb rest hverb).symm)
    (ofWritten naming)

/-- Statements that give the same columns in any two forms are read as the same query, or fail with
the same error but for the place it tells, and the limits refuse the one as they do the other. -/
theorem forms_agree (hverb : verb = .insert ∨ verb = .update) (hentity : IsWord entity)
    (hne : fields ≠ []) (hnames : ∀ f ∈ fields, IsWord f.name)
    (hdistinct : (fields.map Named.name).Nodup) (hvalues : ∀ f ∈ fields, IsWhole f.value)
    (limits : Limits) (naming : Naming) (rest : String) (form form' : BodyForm) :
    (∀ q, parse limits naming (form.statement verb entity fields rest) = .ok q →
      parse limits naming (form'.statement verb entity fields rest) = .ok q) ∧
    (∀ e, parse limits naming (form.statement verb entity fields rest) = .error e →
      ∃ e', parse limits naming (form'.statement verb entity fields rest) = .error e' ∧
        e'.unplaced = e.unplaced) ∧
    ∀ limit maximum found, parse limits naming (form.statement verb entity fields rest) =
        .error (.limitExceeded limit maximum found) →
      parse limits naming (form'.statement verb entity fields rest) =
        .error (.limitExceeded limit maximum found) := by
  have hsame :=
    unplaced_parse_eq hverb hentity hne hnames hdistinct hvalues limits naming rest form' form
  refine ⟨fun q hq => ?_, fun e he => ?_, fun limit maximum found he => ?_⟩
  · rw [hq] at hsame
    exact Outcome.eq_ok_of_unplaced hsame
  · rw [he] at hsame
    exact Outcome.exists_error_of_unplaced hsame
  · rw [he] at hsame
    obtain ⟨e', he', hunplaced⟩ := Outcome.exists_error_of_unplaced hsame
    rw [he', QueryError.eq_limitExceeded_of_unplaced hunplaced]

def entrusted : Query :=
  ⟨.insert ⟨"God", [⟨"not", .param "who"⟩, ⟨"true", .document [⟨"a", .list [.int 1, .null]⟩]⟩]⟩
    (some ⟨7_200_000_000_000⟩), ⟨["who"], []⟩⟩

def entrustedFields : List (Named String) := [⟨"not", "@who"⟩, ⟨"true", "\x7ba: [1, null]\x7d"⟩]

theorem parse_entrusted : parse {} .identity
    "insert God (not = @who, true = \x7ba: [1, null]\x7d) 2 hours" = .ok entrusted := by
  unfold entrusted
  cbv

theorem parse_entrusted_shallow : parse ⟨9, 9, 9, 1⟩ .identity
    "insert God (not = @who, true = \x7ba: [1, null]\x7d) 2 hours" =
      .error (.limitExceeded .literalDepth 1 2) := by
  cbv

theorem entrusted_agrees :
    parse {} .identity
      "insert God (\x7b\"not\": @who, \"true\": \x7ba: [1, null]\x7d\x7d) 2 hours" =
        .ok entrusted ∧
    parse ⟨9, 9, 9, 1⟩ .identity
      "insert God \x7bnot: @who, true: \x7ba: [1, null]\x7d\x7d 2 hours" =
        .error (.limitExceeded .literalDepth 1 2) := by
  have hentity : IsWord "God" := by decide +kernel
  have hnames : ∀ f ∈ entrustedFields, IsWord f.name := by decide +kernel
  have hdistinct : (entrustedFields.map Named.name).Nodup := by decide
  have hnested : Written.literal "\x7ba: [1, null]\x7d" =
      .ok (.document [⟨"a", .list [.int 1, .null]⟩]) := by
    cbv
  have hwho : Token.IsName "who" := ⟨by decide, List.all_eq_true.1 (by decide +kernel)⟩
  have hvalues : ∀ f ∈ entrustedFields, IsWhole f.value :=
    List.forall_mem_cons.2 ⟨Written.isWhole_param hwho,
      List.forall_mem_singleton.2 (Written.isWhole_of_literal hnested)⟩
  have hagree (limits : Limits) (form : BodyForm) :=
    forms_agree (.inl rfl) hentity (List.cons_ne_nil _ _) hnames hdistinct hvalues limits .identity
      " 2 hours" .assigned form
  exact ⟨(hagree {} (.enclosed fun _ => .quoted)).1 _ parse_entrusted,
    (hagree ⟨9, 9, 9, 1⟩ (.document fun _ => .plain)).2.2 _ _ _ parse_entrusted_shallow⟩

end Query

end RecordQuery
