import RecordQuery.Proofs.Params.Subst
import RecordQuery.Written.Statement

namespace RecordQuery

namespace Written

variable {limits : Limits} {ts : List Token} {w : Written}

def clause? : Written → Option Clause
  | .select q => q.condition
  | .delete q => q.condition
  | .insert .. | .update _ => none

section Clauses

variable {P : Clause → Prop}

theorem clause_of_readWhere {p : Partly Token (Option Clause) ts}
    (hP : ∀ {ts : List Token} {r : Read Token Clause ts}, readClause limits ts = .ok r → P r.value)
    (h : readWhere limits ts = .ok p) : ∀ c ∈ p.value, P c := by
  unfold readWhere at h
  split at h
  · cases h
    intro c hc
    cases hc
  · obtain ⟨r, hr, rfl⟩ := Outcome.map_eq_ok.1 h
    intro c hc
    cases hc
    exact hP hr

theorem clause_of_readStatement {verb : Verb}
    (hP : ∀ {ts : List Token} {r : Read Token Clause ts}, readClause limits ts = .ok r → P r.value)
    (h : readStatement limits verb ts = .ok w) : ∀ c ∈ w.clause?, P c := by
  cases verb with
  | select | delete =>
      iterate 3 obtain ⟨_, -, h⟩ := Outcome.bind_eq_ok.1 h
      obtain ⟨condition, hcondition, h⟩ := Outcome.bind_eq_ok.1 h
      obtain ⟨_, -, h⟩ := Outcome.bind_eq_ok.1 h
      cases h
      exact clause_of_readWhere hP hcondition
  | insert | update =>
      iterate 4 obtain ⟨_, -, h⟩ := Outcome.bind_eq_ok.1 h
      cases h
      intro c hc
      cases hc

theorem clause_of_ofText {text : String}
    (hP : ∀ {ts : List Token} {r : Read Token Clause ts}, readClause limits ts = .ok r → P r.value)
    (h : ofText limits text = .ok w) : ∀ c ∈ w.clause?, P c := by
  unfold ofText at h
  split at h
  · cases h
  · obtain ⟨ts, -, h⟩ := Outcome.bind_eq_ok.1 h
    exact clause_of_readStatement hP h

end Clauses

theorem exists_clause_of_resolve {naming : Naming} {s : Command} (h : w.resolve naming = .ok s) :
    ∀ tree ∈ s.condition?, ∃ field, ∃ c ∈ w.clause?, c.resolve field = .ok tree := by
  intro tree htree
  cases w with
  | select q | delete q =>
      obtain ⟨condition, hcondition, h⟩ := Outcome.bind_eq_ok.1 h
      cases h
      cases hclause : q.condition with
      | none =>
          rw [hclause] at hcondition
          cases hcondition
          cases htree
      | some c =>
          rw [hclause] at hcondition
          obtain ⟨t, ht, rfl⟩ := Outcome.map_eq_ok.1 hcondition
          cases htree
          exact ⟨_, c, hclause, ht⟩
  | insert | update =>
      cases h
      cases htree

theorem exists_resolve {naming : Naming} (h : ∀ c ∈ w.clause?, c.Admitted) :
    ∃ s, w.resolve naming = .ok s := by
  cases w with
  | select q | delete q =>
      obtain ⟨tree, htree⟩ : ∃ tree,
          Clause.resolveSome (naming.field q.entity) q.condition = .ok tree := by
        cases hclause : q.condition with
        | none => exact ⟨none, rfl⟩
        | some c =>
            obtain ⟨tree, htree⟩ := Clause.exists_resolve (h c hclause)
            exact ⟨some tree, Outcome.map_eq_ok.2 ⟨tree, htree, rfl⟩⟩
      exact ⟨_, Outcome.bind_eq_ok.2 ⟨tree, htree, rfl⟩⟩
  | insert | update => exact ⟨_, rfl⟩

theorem exists_resolve_of_ofText {text : String} (h : ofText limits text = .ok w)
    (naming : Naming) : ∃ s, w.resolve naming = .ok s :=
  exists_resolve (clause_of_ofText admitted_of_readClause h)

end Written

namespace Query

variable {limits : Limits} {text : String} {w : Written}

theorem exists_ofWritten (h : Written.ofText limits text = .ok w) (naming : Naming) :
    ∃ q, ofWritten naming w = .ok q := by
  obtain ⟨s, hs⟩ := Written.exists_resolve_of_ofText h naming
  exact ⟨_, Outcome.map_eq_ok.2 ⟨s, hs, rfl⟩⟩

theorem parse_of_ofText (h : Written.ofText limits text = .ok w) (naming : Naming) :
    parse limits naming text = ofWritten naming w := by
  rw [parse, h, Outcome.ok_bind]

theorem parse_of_ofText_error {e : QueryError} (h : Written.ofText limits text = .error e)
    (naming : Naming) : parse limits naming text = .error e := by
  rw [parse, h]
  rfl

end Query

end RecordQuery
