import RecordQuery.Proofs.Statement.ReadBack
import RecordQuery.Proofs.Statement.Ttl

namespace RecordQuery

open Token (IsWord Spells Writes)
open Written (Literal Assignments Body Gives)

namespace Record

structure Recorded (r : Record) : Prop where
  entity : IsWord r.entity
  formed : ∀ c ∈ r.columns, c.value.Each Value.Formed

def Assignable (columns : List Column) : Prop :=
  columns ≠ [] ∧ ∀ c ∈ columns, IsWord c.name

def assignment (c : Column) : List Lexeme := .word c.name :: .mark .equal :: c.value.lexemes

def assignmentText (c : Column) : String := c.name ++ " = " ++ c.value.text

def columnChars (columns : List Column) : List Char :=
  (Text.commaJoined (columns.map assignmentText)).toList

theorem toList_text (r : Record) :
    r.text.toList = r.entity.toList ++ ' ' :: '(' :: (columnChars r.columns ++ [')']) := by
  simp only [text, String.toList_append, List.append_assoc]
  rfl

def lexemes (r : Record) : List Lexeme :=
  .word r.entity :: .mark .openParen ::
    ([.mark .comma].intercalate (r.columns.map assignment) ++ [.mark .closeParen])

theorem writes_assignment {c : Column} (hname : IsWord c.name) (hformed : c.value.Each Value.Formed)
    (hplain : c.value.Each Value.Plain) : Writes (assignment c) (assignmentText c).toList := by
  have hvalue := (Value.writes hformed hplain).blank
  have hequal : Writes _ ('=' :: ' ' :: c.value.text.toList) := hvalue.mark rfl
  have htext : (assignmentText c).toList = c.name.toList ++ ' ' :: '=' :: ' ' ::
      c.value.text.toList := by
    simp [assignmentText]
  rw [htext]
  exact Written.writes_word hname hequal

theorem writes {r : Record} (h : r.Recorded) (hassignable : Assignable r.columns)
    (hplain : ∀ c ∈ r.columns, c.value.Each Value.Plain) : Writes r.lexemes r.text.toList := by
  have hcolumns : Writes _ (columnChars r.columns) := .commaJoined fun c hc =>
    writes_assignment (hassignable.2 c hc) (h.formed c hc) (hplain c hc)
  have hbody := Value.writes_enclosed (c := '(') (d := ')') rfl rfl (by decide) hcolumns
  rw [toList_text]
  exact Written.writes_word h.entity hbody

end Record

namespace Written

variable {limits : Limits} {ts rest : List Token}

theorem Assignments.of_forall : ∀ {cs : List Column}, cs ≠ [] →
    (∀ c ∈ cs, Literal limits 0 c.value.lexemes c.value) →
      Assignments limits ([.mark .comma].intercalate (cs.map Record.assignment)) cs
  | [c], _, h => by simpa [Record.assignment] using Assignments.one (h c (by simp))
  | c :: d :: cs, _, h => by
      rw [List.forall_mem_cons] at h
      have hmore := Assignments.of_forall (List.cons_ne_nil d cs) h.2
      simp only [List.map_cons, List.intercalate_cons_cons, List.append_assoc, Record.assignment,
        List.cons_append]
      exact .cons h.1 hmore

theorem Assignments.formed {ls : List Lexeme} {cs : List Column} (h : Assignments limits ls cs)
    (hls : ∀ l ∈ ls, Token.Spelled l) : ∀ c ∈ cs, c.value.Each Value.Formed := by
  induction h with
  | one hv => simpa using hv.formed (by simp_all)
  | cons hv _ ih => exact List.forall_mem_cons.2 ⟨hv.formed (by simp_all), ih (by simp_all)⟩

theorem Assignments.assignable {ls : List Lexeme} {cs : List Column}
    (h : Assignments limits ls cs) (hls : ∀ l ∈ ls, Token.Spelled l) :
    Record.Assignable cs := by
  induction h with
  | @one name =>
      have hname : IsWord name := hls (.word name) (by simp)
      exact ⟨by simp, by simpa using hname⟩
  | @cons name _ _ _ _ _ _ ih =>
      have hname : IsWord name := hls (.word name) (by simp)
      exact ⟨by simp, List.forall_mem_cons.2 ⟨hname, (ih (by simp_all)).2⟩⟩

theorem Body.formed {ls : List Lexeme} {cs : List Column} (h : Body limits ls cs)
    (hls : ∀ l ∈ ls, Token.Spelled l) : ∀ c ∈ cs, c.value.Each Value.Formed := by
  cases h with
  | payload h | enclosed h => exact (Value.each_document.1 (h.formed (by simp_all))).2
  | assigned h => exact h.formed (by simp_all)

theorem gives_readRecord {r : Record} (h : r.Recorded) (hassignable : Record.Assignable r.columns)
    (hdepth : ∀ c ∈ r.columns, c.value.depth ≤ limits.literalDepth) (verb : Verb)
    (hs : Spells r.lexemes ts rest) :
    ∃ mid, Gives (readEntity verb ts) r.entity mid ∧
      Gives (readBody limits mid) r.columns rest := by
  obtain ⟨mid, hentity, hbody⟩ := Spells.uncons hs
  have hvalues := Assignments.of_forall hassignable.1 fun c hc =>
    Literal.at_root (h.formed c hc) (hdepth c hc)
  exact ⟨mid, gives_readEntity.2 hentity, gives_readBody_iff.2 ⟨_, .assigned hvalues, hbody⟩⟩

def lastWords (ttl : Option Ttl) : List Lexeme := (ttl.map Ttl.lexemes).getD []

theorem readLastTtl_of_spells {ttl : Option Ttl} (h : ∀ t ∈ ttl, t.Legible)
    (hs : Spells (lastWords ttl) ts []) : readLastTtl ts = .ok ttl := by
  cases ttl with
  | none =>
      cases hs
      rfl
  | some t =>
      obtain ⟨hlt, hread⟩ := gives_readTtl (h t rfl) hs
      have hne : ts ≠ [] := by
        rintro rfl
        cases hlt
      rw [readLastTtl, if_neg hne, hread]
      rfl

theorem recorded_of_read {verb : Verb} {e : Read Token String ts}
    {b : Read Token (List Column) e.rest}
    (hts : ∀ t ∈ ts, Token.Spelled t.lexeme) (hentity : readEntity verb ts = .ok e)
    (hbody : readBody limits e.rest = .ok b) :
    Record.Recorded ⟨e.value, b.value⟩ ∧ ∀ t ∈ b.rest, Token.Spelled t.lexeme := by
  obtain ⟨hword, hrest⟩ := (gives_readEntity.1 ⟨e.shorter, hentity⟩).forall_lexeme hts
  obtain ⟨ls, hls, hs⟩ := gives_readBody_iff.1 ⟨b.shorter, hbody⟩
  obtain ⟨hspelled, hend⟩ := hs.forall_lexeme hrest
  exact ⟨⟨hword (.word e.value) (by simp), hls.formed hspelled⟩, hend⟩

theorem legible_of_readLastTtl {ttl : Option Ttl} (hts : ∀ t ∈ ts, Token.Spelled t.lexeme)
    (h : readLastTtl ts = .ok ttl) : ∀ t ∈ ttl, t.Legible := by
  unfold readLastTtl at h
  split at h
  · cases h
    simp
  · obtain ⟨r, hr, h⟩ := Outcome.bind_eq_ok.1 h
    obtain ⟨-, -, h⟩ := Outcome.bind_eq_ok.1 h
    cases h
    rintro t ⟨⟩
    exact legible_of_readTtl hts hr

end Written

theorem Record.rename_identity (r : Record) : r.rename .identity = r := by
  simp [Record.rename, Naming.identity]

theorem Written.resolve_insert (r : Record) (ttl : Option Ttl) :
    Written.resolve .identity (.insert r ttl) = .ok (.insert r ttl) := by
  rw [Written.resolve, r.rename_identity]

theorem Written.resolve_update (r : Record) :
    Written.resolve .identity (.update r) = .ok (.update r) := by
  rw [Written.resolve, r.rename_identity]

namespace Command

def columns : Command → List Column
  | .insert r _ | .update r => r.columns
  | .select _ | .delete _ => []

def Recorded : Command → Prop
  | .insert r ttl => r.Recorded ∧ ∀ t ∈ ttl, t.Legible
  | .update r => r.Recorded
  | .select _ | .delete _ => False

end Command

namespace Written

variable {limits : Limits} {ts : List Token} {w : Written} {s : Command}

theorem recorded_of_readInsert (hts : ∀ t ∈ ts, Token.Spelled t.lexeme)
    (h : readInsert limits ts = .ok w) (hs : w.resolve .identity = .ok s) : s.Recorded := by
  obtain ⟨verb, hverb, h⟩ := Outcome.bind_eq_ok.1 h
  obtain ⟨entity, hentity, h⟩ := Outcome.bind_eq_ok.1 h
  obtain ⟨body, hbody, h⟩ := Outcome.bind_eq_ok.1 h
  obtain ⟨ttl, httl, h⟩ := Outcome.bind_eq_ok.1 h
  cases h
  cases hs
  rw [Record.rename_identity]
  obtain ⟨hrecorded, hrest⟩ := recorded_of_read (spelled_of_expectKeyword hts hverb) hentity hbody
  exact ⟨hrecorded, legible_of_readLastTtl hrest httl⟩

theorem recorded_of_readUpdate (hts : ∀ t ∈ ts, Token.Spelled t.lexeme)
    (h : readUpdate limits ts = .ok w) (hs : w.resolve .identity = .ok s) : s.Recorded := by
  obtain ⟨verb, hverb, h⟩ := Outcome.bind_eq_ok.1 h
  obtain ⟨entity, hentity, h⟩ := Outcome.bind_eq_ok.1 h
  obtain ⟨body, hbody, h⟩ := Outcome.bind_eq_ok.1 h
  obtain ⟨-, -, h⟩ := Outcome.bind_eq_ok.1 h
  cases h
  cases hs
  rw [Record.rename_identity]
  exact (recorded_of_read (spelled_of_expectKeyword hts hverb) hentity hbody).1

theorem recorded_of_ofText {text : String} (h : ofText limits text = .ok w)
    (hs : w.resolve .identity = .ok s) (hverb : s.verb = .insert ∨ s.verb = .update) :
    s.Recorded := by
  rw [verb_resolve hs] at hverb
  unfold ofText at h
  split at h
  · cases h
  · next verb _ =>
      obtain ⟨ts, hts, h⟩ := Outcome.bind_eq_ok.1 h
      have hspelled := Token.spelled_of_ofChars hts
      rw [verb_of_readStatement h] at hverb
      rcases hverb with rfl | rfl
      · exact recorded_of_readInsert hspelled h hs
      · exact recorded_of_readUpdate hspelled h hs

theorem readInsert_of_spells {r : Record} {ttl : Option Ttl} (h : r.Recorded)
    (httl : ∀ t ∈ ttl, t.Legible) (hassignable : Record.Assignable r.columns)
    (hdepth : ∀ c ∈ r.columns, c.value.depth ≤ limits.literalDepth)
    (hs : Spells (.word "insert" :: (r.lexemes ++ lastWords ttl)) ts []) :
    readInsert limits ts = .ok (.insert r ttl) := by
  obtain ⟨ts₁, hverb, hs⟩ := Spells.uncons hs
  obtain ⟨ts₂, hrecord, hs⟩ := hs.split
  obtain ⟨_, hverb⟩ := gives_expectKeyword.2 hverb
  obtain ⟨mid, ⟨_, hentity⟩, ⟨_, hbody⟩⟩ := gives_readRecord h hassignable hdepth .insert hrecord
  have hlast := readLastTtl_of_spells httl hs
  unfold readInsert
  simp only [hverb, hentity, hbody, hlast, Outcome.ok_bind]

theorem readUpdate_of_spells {r : Record} (h : r.Recorded)
    (hassignable : Record.Assignable r.columns)
    (hdepth : ∀ c ∈ r.columns, c.value.depth ≤ limits.literalDepth)
    (hs : Spells (.word "update" :: r.lexemes) ts []) :
    readUpdate limits ts = .ok (.update r) := by
  obtain ⟨ts₁, hverb, hs⟩ := Spells.uncons hs
  obtain ⟨_, hverb⟩ := gives_expectKeyword.2 hverb
  obtain ⟨mid, ⟨_, hentity⟩, ⟨_, hbody⟩⟩ := gives_readRecord h hassignable hdepth .update hs
  unfold readUpdate
  simp only [hverb, hentity, hbody, expectEnd, if_true, Outcome.ok_bind]

end Written

namespace Command

def ttlText : Option Ttl → String
  | none => ""
  | some t => " " ++ t.text

theorem clausal_ttl {ttl : Option Ttl} (h : ∀ t ∈ ttl, t.Legible) :
    Written.Clausal (Written.lastWords ttl) (ttlText ttl).toList := by
  cases ttl with
  | none => exact Written.clausal_nil
  | some t =>
      rw [ttlText, String.toList_append]
      exact ⟨(Ttl.writes (h t rfl)).blank, Token.breaks_blank⟩

theorem toList_text_insert (r : Record) (ttl : Option Ttl) :
    (text (.insert r ttl)).toList = Verb.insert.keyword.toList ++ ' ' ::
      (r.text.toList ++ (ttlText ttl).toList) := by
  simp only [text, String.toList_append, List.append_assoc]
  cases ttl <;> rfl

theorem toList_text_update (r : Record) :
    (text (.update r)).toList = Verb.update.keyword.toList ++ ' ' :: r.text.toList := by
  rw [text, String.toList_append]
  rfl

theorem writes_insert {r : Record} {ttl : Option Ttl} (h : r.Recorded)
    (httl : ∀ t ∈ ttl, t.Legible) (hassignable : Record.Assignable r.columns)
    (hplain : ∀ c ∈ r.columns, c.value.Each Value.Plain) :
    Writes (.word "insert" :: (r.lexemes ++ Written.lastWords ttl))
      (text (.insert r ttl)).toList := by
  have hlast := clausal_ttl httl
  rw [toList_text_insert]
  exact Written.writes_word (Written.isWord_verb .insert)
    ((Record.writes h hassignable hplain).append hlast.1 hlast.2)

theorem writes_update {r : Record} (h : r.Recorded) (hassignable : Record.Assignable r.columns)
    (hplain : ∀ c ∈ r.columns, c.value.Each Value.Plain) :
    Writes (.word "update" :: r.lexemes) (text (.update r)).toList := by
  rw [toList_text_update]
  exact Written.writes_word (Written.isWord_verb .update) (Record.writes h hassignable hplain)

theorem exists_ofText_of_recorded {limits : Limits} {s : Command} (h : s.Recorded)
    (hassignable : Record.Assignable s.columns)
    (hplain : ∀ c ∈ s.columns, c.value.Each Value.Plain)
    (hdepth : ∀ c ∈ s.columns, c.value.depth ≤ limits.literalDepth) :
    ∃ w, Written.ofText limits s.text = .ok w ∧ w.resolve .identity = .ok s := by
  obtain ⟨cs, htext⟩ := s.exists_toList_text
  cases s with
  | insert r ttl =>
      apply Written.exists_ofText htext (writes_insert h.1 h.2 hassignable hplain)
      intro ts hs
      exact ⟨_, Written.readInsert_of_spells h.1 h.2 hassignable hdepth hs,
        Written.resolve_insert r ttl⟩
  | update r =>
      apply Written.exists_ofText htext (writes_update h hassignable hplain)
      intro ts hs
      exact ⟨_, Written.readUpdate_of_spells h hassignable hdepth hs, Written.resolve_update r⟩
  | select | delete => cases h

end Command

end RecordQuery
