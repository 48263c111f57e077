import RecordQuery.Proofs.Statement.ReadBack
import RecordQuery.Proofs.Statement.Resolve
import RecordQuery.Proofs.Token.Following

/-!
A selection up to its condition, and what stands behind it. The tokens of a text that goes on behind
such a head are those of the head and of the rest, and the readers of the head stop where the
clauses behind the condition begin.
-/

namespace RecordQuery

open Token (Spells)

namespace Written

variable {limits : Limits} {ts rest : List Token} {head tail : String} {q : Select Clause}

theorem spells_of_readProjection {r : Read Token (List String) ts}
    (h : readProjection ts = .ok r) : Spells (fieldWords r.value) ts r.rest := by
  unfold readProjection at h
  split at h
  · cases h
    exact ⟨_, _, rfl, rfl⟩
  · obtain ⟨hne, -, hs⟩ := words_of_readWords h
    rwa [fieldWords, if_neg hne]

theorem exists_readsWhere_of_readWhere {p : Partly Token (Option Clause) ts}
    (h : readWhere limits ts = .ok p) :
    ∃ ls, ReadsWhere limits ls p.value ∧ Spells ls ts p.rest := by
  have hkeyword := @spells_of_skipKeyword ts "where"
  unfold readWhere at h
  split at h
  · cases h
    exact ⟨[], readsWhere_nil, rfl⟩
  · next rest hle heq =>
      obtain ⟨r, hr, rfl⟩ := Outcome.map_eq_ok.1 h
      rw [heq] at hkeyword
      obtain ⟨-, ls, first, more, hchain, hclause, hs⟩ := gives_readClause_iff.1 ⟨r.shorter, hr⟩
      refine ⟨.word "where" :: ls, ?_, (hkeyword rfl).append hs⟩
      rw [Read.map, hclause]
      exact readsWhere_of_chain hchain

/-- A text that is a selection up to its condition and has no clause behind it. -/
structure Head (limits : Limits) (head : String) (q : Select Clause) : Prop where
  verb : Verb.ofKeyword? (String.ofList (head.toList.take verbLength)) = some .select
  bare : ∃ ts, Token.ofChars head.toList = .ok ts ∧ readFront limits ts = .ok (q, [])

theorem exists_readsWhere_of_readFront (h : readFront limits ts = .ok (q, rest)) :
    ∃ ls, ReadsWhere limits ls q.condition ∧
      Spells (.word "select" ::
        (fieldWords q.fields ++ .word "from" :: .word q.entity :: ls)) ts rest := by
  obtain ⟨⟨_, ts₁, hlt₁⟩, hverb, h⟩ := Outcome.bind_eq_ok.1 h
  obtain ⟨⟨fields, ts₂, hlt₂⟩, hfields, h⟩ := Outcome.bind_eq_ok.1 h
  obtain ⟨⟨entity, ts₃, hlt₃⟩, hsource, h⟩ := Outcome.bind_eq_ok.1 h
  obtain ⟨⟨condition, ts₄, hle⟩, hwhere, h⟩ := Outcome.bind_eq_ok.1 h
  cases h
  obtain ⟨ls, hreads, hs⟩ := exists_readsWhere_of_readWhere hwhere
  have hverb := gives_expectKeyword.1 ⟨hlt₁, hverb⟩
  have hfields := spells_of_readProjection hfields
  have hsource := gives_readSource.1 ⟨hlt₃, hsource⟩
  exact ⟨ls, hreads, hverb.append (hfields.append (hsource.append hs))⟩

theorem admitted_of_readFront (h : readFront limits ts = .ok (q, rest)) :
    ∀ c ∈ q.condition, c.Admitted := by
  iterate 3 obtain ⟨_, -, h⟩ := Outcome.bind_eq_ok.1 h
  obtain ⟨condition, hwhere, h⟩ := Outcome.bind_eq_ok.1 h
  cases h
  exact clause_of_readWhere admitted_of_readClause hwhere

section Behind

variable (h : Head limits head q) (hb : Token.Breaks tail.toList)
include h hb

theorem Head.exists_front :
    ∃ front ts, front.map Token.lexeme = ts.map Token.lexeme ∧
      readFront limits ts = .ok (q, []) ∧ ofText limits (head ++ tail) =
        Token.ofChars tail.toList >>= fun more => readSelect limits (front ++ more) := by
  obtain ⟨hverb, ts, hts, hread⟩ := h
  obtain ⟨front, hfront, hsplit⟩ := Token.ofChars_append hts hb
  refine ⟨front, ts, hfront, hread, ?_⟩
  obtain ⟨cs, hcs⟩ := exists_toList_of_verb hverb
  have htext : (head ++ tail).toList = Verb.select.keyword.toList ++ (cs ++ tail.toList) := by
    rw [String.toList_append, hcs, List.append_assoc]
  unfold ofText
  rw [verb_of_text htext, String.toList_append, hsplit]
  cases Token.ofChars tail.toList <;> rfl

theorem Head.ofText_append (hts : Token.ofChars tail.toList = .ok ts) (hstops : Stops ts) :
    ofText limits (head ++ tail) = (readWindow ⟨none, none, none⟩ ts).map (within q) := by
  obtain ⟨front, ts', hfront, hread, htext⟩ := h.exists_front hb
  obtain ⟨ls, hreads, hs⟩ := exists_readsWhere_of_readFront hread
  have hspells := Token.spells_append front ts
  rw [hfront, hs.map_lexeme, List.map_nil, List.append_nil] at hspells
  rw [htext, hts, Outcome.ok_bind, readSelect_eq, readFront_of_spells hreads hspells hstops]
  rfl

theorem Head.ofText_append_error {e : QueryError} (hts : Token.ofChars tail.toList = .error e) :
    ofText limits (head ++ tail) = .error e := by
  obtain ⟨front, _, -, -, htext⟩ := h.exists_front hb
  rw [htext, hts]
  rfl

end Behind

end Written

namespace Query

open Written (Head)

variable {limits : Limits} {head tail : String} {q : Select Clause}

theorem exists_ofWritten_within (h : Head limits head q) (naming : Naming) :
    ∃ (s : Selection) (params : Params), s.sorts = [] ∧ s.skip = 0 ∧ s.limit = 0 ∧
      ∀ w, ofWritten naming (Written.within q w) = .ok ⟨.select { s with
        sorts := (w.sorts.getD []).map fun k => ⟨naming.field q.entity k.name, k.direction⟩
        limit := w.limit.getD 0
        skip := w.skip.getD 0 }, params⟩ := by
  have hresolve : ∃ tree, Clause.resolveSome (naming.field q.entity) q.condition = .ok tree := by
    cases hclause : q.condition with
    | none => exact ⟨none, rfl⟩
    | some c =>
        obtain ⟨ts, -, hread⟩ := h.bare
        obtain ⟨tree, htree⟩ := Clause.exists_resolve
          (Written.admitted_of_readFront hread c hclause)
        exact ⟨some tree, Outcome.map_eq_ok.2 ⟨tree, htree, rfl⟩⟩
  obtain ⟨tree, htree⟩ := hresolve
  refine ⟨⟨naming.entity q.entity, q.fields.map (naming.field q.entity), tree, [], 0, 0⟩,
    Params.empty.declareAll (Written.params (.select q)), rfl, rfl, rfl, fun w => ?_⟩
  exact Outcome.map_eq_ok.2 ⟨_, Outcome.bind_eq_ok.2 ⟨tree, htree, rfl⟩, rfl⟩

end Query

end RecordQuery
