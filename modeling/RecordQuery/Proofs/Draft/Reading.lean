import RecordQuery.Proofs.Draft.Outline
import RecordQuery.Proofs.Statement.ReadBack
import RecordQuery.Proofs.Statement.Resolve

namespace RecordQuery

open Token (IsWord Writes Spells)

theorem Query.parse_of_resolve {limits : Limits} {text : String} {w : Written} {s : Command}
    (hread : Written.ofText limits text = .ok w) (hresolve : w.resolve .identity = .ok s) :
    parse limits .identity text = .ok ⟨s, ⟨s.params.eraseDups, []⟩⟩ := by
  have hparams : s.params = w.params := Written.params_resolve hresolve
  rw [parse_of_ofText hread, ofWritten, hresolve, Outcome.ok_map, Params.declareAll_empty, hparams]

theorem Written.spelled_nots {limits : Limits} {ls : List Lexeme} {c : Condition} (n : Nat)
    {depth : Nat} (hroom : depth + n ≤ limits.conditionDepth)
    (h : Spelled limits (depth + n) ls c) :
    Spelled limits depth (List.replicate n (.word "not") ++ ls) (c.negateTimes n) := by
  induction n generalizing depth with
  | zero => exact h
  | succ n ih =>
      rw [← Nat.add_assoc, Nat.add_right_comm] at hroom h
      obtain ⟨clause, hterm, hresolve⟩ := ih hroom h
      refine ⟨_, .not (by omega) hterm, ?_⟩
      rw [Clause.resolve, hresolve]
      rfl

namespace Draft

variable {limits : Limits}

namespace Asked

def negatedText : Nat → String → String
  | 0, text => text
  | n + 1, text => "not " ++ negatedText n text

def text (a : Asked) : String :=
  negatedText a.negations (Condition.comparisonText a.test.comparison ⟨a.field, a.test.operand⟩)

def lexemes (a : Asked) : List Lexeme :=
  List.replicate a.negations (.word "not") ++ a.leaf.lexemes

def needs (a : Asked) : Limits where
  cacheCapacity := 0
  conditionDepth := a.negations
  inList := Condition.operandWidth a.test.comparison a.test.operand
  literalDepth := Condition.operandDepth a.test.comparison a.test.operand

structure Legible (a : Asked) : Prop where
  word : IsWord a.field
  notNegation : a.field ≠ "not"
  fluent : a.test.Fluent
  formed : a.test.operand.Each Value.Formed
  plain : a.test.operand.Each Value.Plain

variable {a : Asked}

theorem Legible.leaf (h : a.Legible) :
    Condition.Legible a.test.comparison ⟨a.field, a.test.operand⟩ :=
  ⟨h.word, h.notNegation, h.fluent.admitted a.field, h.formed⟩

theorem writes (h : a.Legible) : Writes a.lexemes a.text.toList := by
  have hleaf := Condition.writes_compare h.leaf h.plain
  rw [lexemes, text]
  induction a.negations with
  | zero => exact hleaf
  | succ n ih =>
      rw [negatedText, String.toList_append]
      exact Written.writes_word (w := "not") (by decide) ih

theorem spelled (h : a.Legible) (hlimits : limits.Cover a.needs) :
    Written.Spelled limits 0 a.lexemes a.condition := by
  have hnegations : 0 + a.negations ≤ limits.conditionDepth := by
    rw [Nat.zero_add]
    exact hlimits .conditionDepth
  apply Written.spelled_nots a.negations hnegations
  exact Written.spelled_compare h.leaf (hlimits .inList) (hlimits .literalDepth)

end Asked

namespace Asking

def linkText (next : Connective × Asked) : String :=
  " " ++ next.1.symbol ++ " " ++ next.2.text

def text (a : Asking) : String := a.first.text ++ String.join (a.more.map linkText)

def lexemes (a : Asking) : List Lexeme := a.first.lexemes ++ Written.linked Asked.lexemes a.more

variable {a : Asking}

theorem clausal_links {more : List (Connective × Asked)} (h : ∀ next ∈ more, next.2.Legible) :
    Written.Clausal (Written.linked Asked.lexemes more)
      (String.join (more.map linkText)).toList := by
  induction more with
  | nil => exact Written.clausal_nil
  | cons next more ih =>
      rw [List.forall_mem_cons] at h
      have hnext := Written.clausal_word (Token.isWord_symbol next.1) (Asked.writes h.1)
      have htext : (linkText next).toList =
          ' ' :: (next.1.symbol.toList ++ ' ' :: next.2.text.toList) := by
        simp [linkText]
      rw [List.map_cons, String.join_cons, String.toList_append, htext]
      exact hnext.append (ih h.2)

theorem writes (h : ∀ asked ∈ a.asked, asked.Legible) : Writes a.lexemes a.text.toList := by
  rw [asked, List.forall_mem_cons, List.forall_mem_map] at h
  have hlinks := clausal_links h.2
  rw [lexemes, text, String.toList_append]
  exact (Asked.writes h.1).append hlinks.1 hlinks.2

theorem filtered (h : ∀ asked ∈ a.asked, asked.Legible)
    (hlimits : ∀ asked ∈ a.asked, limits.Cover asked.needs) :
    Written.Filtered limits (.word "where" :: a.lexemes) (some a.condition) := by
  rw [asked, List.forall_mem_cons, List.forall_mem_map] at h hlimits
  have hmore : ∀ next ∈ a.more, Written.Spelled limits 0 next.2.lexemes next.2.condition := by
    intro next hnext
    exact Asked.spelled (h.2 next hnext) (hlimits.2 next hnext)
  obtain ⟨start, more, hchain, hstart, hlength, hjoin⟩ :=
    Written.exists_chain (Asked.spelled h.1 hlimits.1) hmore
  refine .some hchain ?_
  cases more with
  | nil =>
      -- a single term is no chain, and nothing is joined to it
      have hsingle : a.more = [] := List.eq_nil_of_length_eq_zero hlength.symm
      rw [condition, hsingle]
      exact hstart
  | cons next more => exact Outcome.bind_eq_ok.2 ⟨_, hstart, hjoin _⟩

end Asking

namespace Outline

def whereText (o : Outline) : String := o.asking.elim "" fun a => " where " ++ a.text

def deletionText (o : Outline) : String := Written.deleteText o.fields o.entity ++ o.whereText

def whereLexemes (o : Outline) : List Lexeme := o.asking.elim [] fun a => .word "where" :: a.lexemes

structure Legible (o : Outline) : Prop where
  entity : IsWord o.entity
  fields : ∀ name ∈ o.fields, IsWord name
  asked : ∀ asked ∈ o.asked, asked.Legible

variable {o : Outline}

theorem Legible.fluent (h : o.Legible) : ∀ asked ∈ o.asked, asked.test.Fluent := by
  intro asked hasked
  exact (h.asked asked hasked).fluent

theorem clausal_where (h : o.Legible) : Written.Clausal o.whereLexemes o.whereText.toList := by
  obtain ⟨fields, entity, asking⟩ := o
  cases asking with
  | none => exact Written.clausal_nil
  | some a =>
      have hwrites := Asking.writes h.asked
      rw [whereText, Option.elim_some, String.toList_append]
      exact Written.clausal_word (w := "where") (by decide) hwrites

theorem filtered (h : o.Legible) (hlimits : ∀ asked ∈ o.asked, limits.Cover asked.needs) :
    Written.Filtered limits o.whereLexemes o.condition := by
  obtain ⟨fields, entity, asking⟩ := o
  cases asking with
  | none => exact .none
  | some a => exact Asking.filtered h.asked hlimits

theorem parse_deletionText (h : o.Legible) (hfirst : o.fields.head? ≠ some "from")
    (hlimits : ∀ asked ∈ o.asked, limits.Cover asked.needs) :
    Query.parse limits .identity o.deletionText =
      .ok ⟨.delete o.deletion, ⟨(Command.params (.delete o.deletion)).eraseDups, []⟩⟩ := by
  have hwrites := Written.writes_delete h.fields h.entity (clausal_where h)
  have htext : ∃ cs, o.deletionText.toList = Verb.delete.keyword.toList ++ cs := by
    simp [deletionText, Written.deleteText, Verb.keyword]
  obtain ⟨cs, htext⟩ := htext
  rw [← String.toList_append] at hwrites
  obtain ⟨w, hread, hresolve⟩ := Written.exists_ofText htext hwrites fun ts hs =>
    Written.readDelete_of_spells (filtered h hlimits) hfirst hs
  exact Query.parse_of_resolve hread hresolve

end Outline

namespace Listing

def text (l : Listing) : String :=
  Written.selectText l.fields l.entity ++ l.whereText ++ Written.windowText l.sorts l.skip l.limit

structure Legible (l : Listing) : Prop where
  outline : l.toOutline.Legible
  sorts : ∀ s ∈ l.sorts, IsWord s.name
  skip : ∀ n ∈ l.skip, n.toNat < Written.countBound
  limit : ∀ n ∈ l.limit, n.toNat < Written.countBound

variable {l : Listing}

theorem parse_text (h : l.Legible) (hlimits : ∀ asked ∈ l.asked, limits.Cover asked.needs) :
    Query.parse limits .identity l.text =
      .ok ⟨.select l.selection, ⟨(Command.params (.select l.selection)).eraseDups, []⟩⟩ := by
  have hclauses := (Outline.clausal_where h.outline).append
    (Written.clausal_window h.sorts h.skip h.limit)
  have hwrites := Written.writes_select h.outline.fields h.outline.entity hclauses
  have htext : ∃ cs, l.text.toList = Verb.select.keyword.toList ++ cs := by
    simp [text, Written.selectText, Verb.keyword]
  obtain ⟨cs, htext⟩ := htext
  rw [← List.append_assoc, ← String.toList_append, ← String.toList_append] at hwrites
  obtain ⟨w, hread, hresolve⟩ := Written.exists_ofText htext hwrites fun ts hs =>
    Written.readSelect_of_spells (Outline.filtered h.outline hlimits) h.skip h.limit hs
  exact Query.parse_of_resolve hread hresolve

end Listing

/-- A selection that is built by calls, and a deletion where the outline is that of one, is the
statement that is read from the text of the outline under all limits that leave room for what is
asked for, and its parameters are the ones that are declared. -/
theorem built_as_read {l : Listing} (h : l.Legible)
    (hlimits : ∀ asked ∈ l.asked, limits.Cover asked.needs) :
    (∃ q, ((ofFields l.fields).calls l.calls).select = .ok q ∧
      Query.parse limits .identity l.text =
        .ok ⟨.select q, ⟨(Command.params (.select q)).eraseDups, []⟩⟩) ∧
    (l.fields.head? ≠ some "from" →
      ∃ q, ((ofFields l.fields).calls l.toOutline.calls).delete = .ok q ∧
        Query.parse limits .identity l.toOutline.deletionText =
          .ok ⟨.delete q, ⟨(Command.params (.delete q)).eraseDups, []⟩⟩) := by
  constructor
  · exact ⟨l.selection, select_calls h.outline.fluent, Listing.parse_text h hlimits⟩
  · intro hfirst
    exact ⟨l.toOutline.deletion, delete_calls h.outline.fluent,
      Outline.parse_deletionText h.outline hfirst hlimits⟩

def outlined : Listing where
  fields := []
  entity := "t"
  asking := some ⟨⟨"a", 2, .plain .greaterEqual (.int 1)⟩,
    [(.and, ⟨"b", 1, .isIn [.string "x", .param "p"]⟩), (.or, ⟨"c", 0, .between .null (.bool true)⟩)]⟩
  sorts := [⟨"a", some .descending⟩, ⟨"b", none⟩]
  skip := some 0
  limit := some 3

theorem legible_outlined : outlined.Legible where
  outline := by
    have ha : IsWord "a" := by decide
    have hb : IsWord "b" := by decide
    have hc : IsWord "c" := by decide
    have hx : Text.Plain "x" := by decide
    have hp : Token.IsName "p" := ⟨by decide, List.all_eq_true.1 (by decide)⟩
    refine ⟨by decide, by simp [outlined], ?_⟩
    simp only [outlined, Outline.asked, Option.elim_some, Asking.asked, List.map_cons, List.map_nil,
      List.forall_mem_cons]
    refine ⟨⟨ha, by decide, by simp [Test.Fluent], trivial, trivial⟩,
      ⟨hb, by decide, trivial, ⟨trivial, trivial, hp, trivial⟩, ⟨trivial, hx, trivial, trivial⟩⟩,
      ⟨hc, by decide, trivial, ⟨trivial, trivial, trivial, trivial⟩,
        ⟨trivial, trivial, trivial, trivial⟩⟩, by simp⟩
  sorts := by
    simp only [outlined, List.forall_mem_cons]
    exact ⟨by decide, by decide, by simp⟩
  skip := by
    rintro n ⟨⟩
    decide
  limit := by
    rintro n ⟨⟩
    decide

theorem outlined_built_as_read :
    outlined.text = "select * from t where not not a >= 1 and not b in [\"x\", @p] " ++
      "or c between null and true order by a desc, b skip 0 limit 3" ∧
    (∃ q, ((ofFields []).calls outlined.calls).select = .ok q ∧
      Query.parse {} .identity outlined.text =
        .ok ⟨.select q, ⟨(Command.params (.select q)).eraseDups, []⟩⟩) ∧
    ∃ q, ((ofFields []).calls outlined.toOutline.calls).delete = .ok q ∧
      Query.parse {} .identity outlined.deletionText =
        .ok ⟨.delete q, ⟨(Command.params (.delete q)).eraseDups, []⟩⟩ := by
  have hlimits : ∀ asked ∈ outlined.asked, Limits.Cover {} asked.needs := by
    simp only [outlined, Outline.asked, Option.elim_some, Asking.asked, List.map_cons, List.map_nil,
      List.forall_mem_cons]
    refine ⟨?_, ?_, ?_, by simp⟩ <;> intro l <;> cases l <;> decide
  obtain ⟨hselect, hdelete⟩ := built_as_read legible_outlined hlimits
  exact ⟨by decide +kernel, hselect, hdelete (by decide)⟩

end Draft

end RecordQuery
