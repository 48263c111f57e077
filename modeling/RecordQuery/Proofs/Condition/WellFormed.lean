import Mathlib
import RecordQuery.Proofs.Condition.Normal
import RecordQuery.Proofs.Draft.Calls
import RecordQuery.Proofs.Statement.Resolve

namespace RecordQuery

namespace Condition

/-- What `between` and `in` stand with: two bounds, and a list or a parameter for one. -/
def Suited (k : Comparison) (column : Column) : Prop :=
  match k with
  | .between => ∃ low high, column.value = .list [low, high]
  | .isIn => (∃ items, column.value = .list items) ∨ ∃ name, column.value = .param name
  | .equal | .greater | .greaterEqual | .less | .lessEqual | .like => True

/-- What they stand with once parameters are bound, when an `in` has its list. -/
def Filled (k : Comparison) (column : Column) : Prop :=
  match k with
  | .between => ∃ low high, column.value = .list [low, high]
  | .isIn => ∃ items, column.value = .list items
  | .equal | .greater | .greaterEqual | .less | .lessEqual | .like => True

theorem admitted_eq_suited : Admitted = Suited := by
  funext k ⟨name, v⟩
  refine propext ⟨fun h => ?_, fun h => ?_⟩
  · cases k with
    | between => exact h.exists_bounds
    | isIn =>
        unfold Admitted at h
        cases v with
        | list items => exact .inl ⟨items, rfl⟩
        | param name => exact .inr ⟨name, rfl⟩
        | null | bool | int | float | string | document => cases h
    | equal | greater | greaterEqual | less | lessEqual | like => trivial
  · cases k with
    | between =>
        obtain ⟨low, high, rfl⟩ := h
        rfl
    | isIn => obtain ⟨items, rfl⟩ | ⟨name, rfl⟩ := h <;> rfl
    | equal | greater | greaterEqual | less | lessEqual | like => rfl

structure WellFormed (needs : Comparison → Column → Prop) (c : Condition) : Prop where
  normal : c.Normal
  operands : c.Each needs

theorem closed_wellFormed {needs : Comparison → Column → Prop} :
    Clause.Closed (WellFormed needs) where
  negate h := ⟨h.normal.negate, h.operands.negate⟩
  join hl hr := ⟨hl.normal.join hr.normal, hl.operands.join hr.operands⟩

theorem wellFormed_compare {k : Comparison} {column : Column} (h : Admitted k column) :
    WellFormed Suited (.compare k column) := by
  rw [admitted_eq_suited] at h
  exact ⟨trivial, h⟩

section Binding

variable {p : Params} {σ : String → Value}

theorem Suited.subst {k : Comparison} {column : Column} (h : Suited k column) (name : String) :
    Filled k ⟨name, asOperand k (column.value.subst σ)⟩ := by
  cases k with
  | between =>
      obtain ⟨low, high, hv⟩ := h
      rw [hv]
      exact ⟨low.subst σ, high.subst σ, rfl⟩
  | isIn =>
      -- what is no list is the one member of a list
      cases hv : column.value.subst σ <;> exact ⟨_, rfl⟩
  | equal | greater | greaterEqual | less | lessEqual | like => trivial

theorem WellFormed.exists_bind {c : Condition} (h : c.WellFormed Suited)
    (hp : ∀ n ∈ c.params, (p.value? n).isSome) :
    ∃ d, c.bind p = .ok d ∧ d.WellFormed Filled := by
  have hvalues : ∀ n ∈ c.params, p.value? n = some ((p.value? n).getD .null) := by
    intro n hn
    obtain ⟨v, hv⟩ := Option.isSome_iff_exists.1 (hp n hn)
    rw [hv, Option.getD_some]
  have hadmitted : c.Each Admitted := by
    rw [admitted_eq_suited]
    exact h.operands
  have hfilled : (c.subst fun n => (p.value? n).getD .null).Each Filled :=
    h.operands.subst (fun hsuited _ => hsuited.subst _) hp
  exact ⟨_, bind_eq_subst hadmitted hvalues, h.normal.subst, hfilled⟩

end Binding

end Condition

open Condition (WellFormed Suited Filled wellFormed_compare closed_wellFormed)

section Reading

variable {limits : Limits} {naming : Naming} {text : String}

theorem Clause.wellFormed_of_resolve {field : String → String} {c : Clause} {tree : Condition}
    (h : c.resolve field = .ok tree) : tree.WellFormed Suited :=
  resolve_closed closed_wellFormed (each_of_forall (fun _ _ _ => wellFormed_compare) c) h

theorem Query.wellFormed_of_parse {q : Query} (h : parse limits naming text = .ok q) :
    ∀ c ∈ q.command.condition?, c.WellFormed Suited := by
  obtain ⟨w, -, h⟩ := Outcome.bind_eq_ok.1 h
  obtain ⟨s, hs, rfl⟩ := Outcome.map_eq_ok.1 h
  intro tree htree
  obtain ⟨field, c, -, hc⟩ := Written.exists_clause_of_resolve hs tree htree
  exact Clause.wellFormed_of_resolve hc

end Reading

section Building

variable {P : Condition → Prop} {f g : Filter} {d : Draft}

theorem Filter.add_closed (hP : Clause.Closed P) (hf : ∀ c ∈ f.condition, P c) {next : Condition}
    (hnext : P next) : P (f.add next) := by
  unfold add
  split
  · next left k hleft hk => exact hP.join (hf left hleft) hnext
  · exact hnext

theorem Filter.condition_start {k : Option Connective} {field : String}
    (h : f.start k field = .ok g) : g.condition = f.condition := by
  unfold start at h
  split at h
  · cases h
  · split at h <;> cases h
    rfl

theorem Filter.condition_negate (h : f.negate = .ok g) : g.condition = f.condition := by
  unfold negate at h
  split at h <;> cases h
  rfl

theorem Filter.condition_test {t : Test} (h : f.test t = .ok g) : ∃ field next,
    t.on field = .ok next ∧
      g.condition = some (f.add (if f.negated then next.negate else next)) := by
  unfold test at h
  split at h
  · cases h
  · next field _ =>
      obtain ⟨next, hnext, h⟩ := Outcome.bind_eq_ok.1 h
      cases h
      exact ⟨field, next, hnext, rfl⟩

theorem Filter.call_closed (hP : Clause.Closed P)
    (hleaf : ∀ {k column}, Condition.Admitted k column → P (.compare k column)) {c : Call}
    (hf : ∀ c ∈ f.condition, P c) (h : f.call c = .ok g) : ∀ c ∈ g.condition, P c := by
  cases c with
  | first | link =>
      rw [condition_start h]
      exact hf
  | not =>
      rw [condition_negate h]
      exact hf
  | test t =>
      obtain ⟨field, next, hon, hcondition⟩ := condition_test h
      rw [Test.on_eq] at hon
      obtain ⟨hadmits, rfl⟩ := Condition.ofColumn_eq_ok.1 hon
      rw [hcondition]
      rintro _ ⟨⟩
      refine add_closed hP hf ?_
      split
      · exact hP.negate (hleaf hadmits)
      · exact hleaf hadmits
  | source | orderBy | direction | limit | skip =>
      cases h
      exact hf

theorem Draft.calls_closed (hP : Clause.Closed P)
    (hleaf : ∀ {k column}, Condition.Admitted k column → P (.compare k column))
    (fields : List String) (cs : List Call) :
    ∀ c ∈ ((ofFields fields).calls cs).filter.condition, P c := by
  induction cs using List.reverseRecOn with
  | nil =>
      intro c hc
      cases hc
  | append_singleton cs c ih =>
      rw [calls_concat]
      obtain hkept | hstep := filter_call ((ofFields fields).calls cs) c
      · rw [hkept]
        exact ih
      · exact Filter.call_closed hP hleaf ih hstep

theorem Draft.wellFormed_of_finish {fields : List String} {cs : List Call} {verb : Verb}
    {entity : String} {condition : Option Condition}
    (h : ((ofFields fields).calls cs).finish verb = .ok (entity, condition)) :
    ∀ c ∈ condition, c.WellFormed Suited := by
  obtain ⟨-, -, hfinish⟩ := finish_eq_ok.1 h
  unfold Filter.finish at hfinish
  split at hfinish
  · cases hfinish
  · cases hfinish
    exact calls_closed closed_wellFormed wellFormed_compare fields cs

end Building

namespace Condition

/-- A clause that is read always resolves; the conditions that are read, and those that are built by
any calls, are well-formed; and once all parameters of such a condition are given it is bound, to
one in which every `in` has a list. -/
theorem always_wellFormed :
    (∀ limits text w, Written.ofText limits text = .ok w →
      ∀ naming, ∃ s, w.resolve naming = .ok s) ∧
    (∀ limits naming text q, Query.parse limits naming text = .ok q →
      ∀ c ∈ q.command.condition?, c.WellFormed Suited) ∧
    (∀ fields cs, (∀ q, ((Draft.ofFields fields).calls cs).select = .ok q →
        ∀ c ∈ q.condition, c.WellFormed Suited) ∧
      ∀ q, ((Draft.ofFields fields).calls cs).delete = .ok q →
        ∀ c ∈ q.condition, c.WellFormed Suited) ∧
    ∀ (c : Condition) (p : Params), c.WellFormed Suited →
      (∀ n ∈ c.params, (p.value? n).isSome) →
        ∃ d, c.bind p = .ok d ∧ d.WellFormed Filled := by
  refine ⟨fun _ _ _ h naming => Written.exists_resolve_of_ofText h naming,
    fun _ _ _ _ h => Query.wellFormed_of_parse h, fun fields cs => ⟨fun q h => ?_, fun q h => ?_⟩,
    fun _ _ h hp => h.exists_bind hp⟩
  · obtain ⟨⟨entity, condition⟩, hfinish, rfl⟩ := Outcome.map_eq_ok.1 h
    exact Draft.wellFormed_of_finish hfinish
  · obtain ⟨⟨entity, condition⟩, hfinish, rfl⟩ := Outcome.map_eq_ok.1 h
    exact Draft.wellFormed_of_finish hfinish

def listed : Condition :=
  .group .and [.compare .isIn ⟨"a", .param "xs"⟩, .compare .between ⟨"b", .list [.int 1, .int 2]⟩]

def listedText : String := "delete from t where not not a in @xs and b between 1 and 2"

def listedCalls : List Call :=
  [.source "t", .first "a", .not, .not, .test (.isIn [.int 1]), .link .and "b",
    .test (.between (.int 1) (.int 2))]

theorem listed_wellFormed :
    (∃ w, Written.ofText {} listedText = .ok w ∧ ∃ s, w.resolve .identity = .ok s) ∧
    (∃ q, Query.parse {} .identity listedText = .ok q ∧ q.command.condition? = some listed ∧
      listed.WellFormed Suited) ∧
    (∃ q c, ((Draft.ofFields []).calls listedCalls).select = .ok q ∧ q.condition = some c ∧
      c.WellFormed Suited) ∧
    (∃ q c, ((Draft.ofFields []).calls listedCalls).delete = .ok q ∧ q.condition = some c ∧
      c.WellFormed Suited) ∧
    ∃ d, listed.bind ⟨["xs"], [⟨"xs", .int 1⟩]⟩ = .ok d ∧ d.WellFormed Filled := by
  obtain ⟨hresolves, hparsed, hbuilt, hbound⟩ := always_wellFormed
  have hparse : Query.parse {} .identity listedText =
      .ok ⟨.delete ⟨"t", [], some listed⟩, ⟨["xs"], []⟩⟩ := by
    cbv
  have hlisted := hparsed _ _ _ _ hparse listed rfl
  refine ⟨?_, ⟨_, hparse, rfl, hlisted⟩, ?_, ?_, hbound listed _ hlisted ?_⟩
  · obtain ⟨w, hread, -⟩ := Outcome.bind_eq_ok.1 hparse
    exact ⟨w, hread, hresolves _ _ _ hread .identity⟩
  · exact ⟨_, _, rfl, rfl, (hbuilt [] listedCalls).1 _ rfl _ rfl⟩
  · exact ⟨_, _, rfl, rfl, (hbuilt [] listedCalls).2 _ rfl _ rfl⟩
  · intro n hn
    rw [List.mem_singleton.1 hn]
    rfl

end Condition

end RecordQuery
