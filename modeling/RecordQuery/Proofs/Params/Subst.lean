import RecordQuery.Proofs.Condition.Resolve

namespace RecordQuery

namespace Value

variable {p : Params} {σ : String → Value}

mutual

def subst (σ : String → Value) : Value → Value
  | .param name => σ name
  | .list items => .list (substItems σ items)
  | .document columns => .document (substColumns σ columns)
  | .null => .null
  | .bool b => .bool b
  | .int i => .int i
  | .float x => .float x
  | .string s => .string s

def substItems (σ : String → Value) : List Value → List Value
  | [] => []
  | v :: vs => v.subst σ :: substItems σ vs

def substColumns (σ : String → Value) : List Column → List Column
  | [] => []
  | ⟨name, v⟩ :: cs => ⟨name, v.subst σ⟩ :: substColumns σ cs

end

theorem substItems_eq_map (vs : List Value) : substItems σ vs = vs.map (subst σ) := by
  induction vs with
  | nil => rfl
  | cons v vs ih => simp [substItems, ih]

theorem substColumns_eq_map (cs : List Column) :
    substColumns σ cs = cs.map fun c => ⟨c.name, c.value.subst σ⟩ := by
  induction cs with
  | nil => rfl
  | cons c cs ih => simp [substColumns, ih]

mutual

theorem bind_eq_subst : ∀ {v : Value}, (∀ n ∈ v.params, p.value? n = some (σ n)) →
    v.bind p = .ok (v.subst σ)
  | .param name, h => by
      have hname := h name (by simp [params])
      simp [bind, hname, subst]
  | .list items, h => by
      rw [bind, bindItems_eq_subst h, subst]
      rfl
  | .document columns, h => by
      rw [bind, bindColumns_eq_subst h, subst]
      rfl
  | .null, _ | .bool _, _ | .int _, _ | .float _, _ | .string _, _ => rfl

theorem bindItems_eq_subst : ∀ {vs : List Value},
    (∀ n ∈ itemParams vs, p.value? n = some (σ n)) → bindItems p vs = .ok (substItems σ vs)
  | [], _ => rfl
  | v :: vs, h => by
      simp only [itemParams, List.mem_append, or_imp, forall_and] at h
      rw [bindItems, bind_eq_subst h.1, bindItems_eq_subst h.2]
      rfl

theorem bindColumns_eq_subst : ∀ {cs : List Column},
    (∀ n ∈ columnParams cs, p.value? n = some (σ n)) →
      bindColumns p cs = .ok (substColumns σ cs)
  | [], _ => rfl
  | ⟨name, v⟩ :: cs, h => by
      simp only [columnParams, List.mem_append, or_imp, forall_and] at h
      rw [bindColumns, bind_eq_subst h.1, bindColumns_eq_subst h.2]
      rfl

end

mutual

theorem params_subst : ∀ v : Value, (v.subst σ).params = v.params.flatMap fun n => (σ n).params
  | .param name => by rw [subst, params, List.flatMap_singleton]
  | .list items => itemParams_subst items
  | .document columns => columnParams_subst columns
  | .null | .bool _ | .int _ | .float _ | .string _ => rfl

theorem itemParams_subst : ∀ vs : List Value,
    itemParams (substItems σ vs) = (itemParams vs).flatMap fun n => (σ n).params
  | [] => rfl
  | v :: vs => by
      rw [substItems, itemParams, itemParams, List.flatMap_append, params_subst v,
        itemParams_subst vs]

theorem columnParams_subst : ∀ cs : List Column,
    columnParams (substColumns σ cs) = (columnParams cs).flatMap fun n => (σ n).params
  | [] => rfl
  | ⟨name, v⟩ :: cs => by
      rw [substColumns, columnParams, columnParams, List.flatMap_append, params_subst v,
        columnParams_subst cs]

end

mutual

theorem subst_of_params_eq_nil : ∀ {v : Value}, v.params = [] → v.subst σ = v
  | .param name, h => by cases h
  | .list items, h => by rw [subst, substItems_of_params_eq_nil h]
  | .document columns, h => by rw [subst, substColumns_of_params_eq_nil h]
  | .null, _ | .bool _, _ | .int _, _ | .float _, _ | .string _, _ => rfl

theorem substItems_of_params_eq_nil : ∀ {vs : List Value}, itemParams vs = [] →
    substItems σ vs = vs
  | [], _ => rfl
  | v :: vs, h => by
      obtain ⟨hv, hvs⟩ := List.append_eq_nil_iff.1 h
      rw [substItems, subst_of_params_eq_nil hv, substItems_of_params_eq_nil hvs]

theorem substColumns_of_params_eq_nil : ∀ {cs : List Column}, columnParams cs = [] →
    substColumns σ cs = cs
  | [], _ => rfl
  | ⟨name, v⟩ :: cs, h => by
      obtain ⟨hv, hcs⟩ := List.append_eq_nil_iff.1 h
      rw [substColumns, subst_of_params_eq_nil hv, substColumns_of_params_eq_nil hcs]

end

end Value

namespace Condition

variable {p : Params} {σ : String → Value}

mutual

/-- The condition with each parameter replaced; what stands with an `in` is made a list. -/
def subst (σ : String → Value) : Condition → Condition
  | .compare k column => .compare k ⟨column.name, asOperand k (column.value.subst σ)⟩
  | .group k children => .group k (substChildren σ children)
  | .not inner => .not (inner.subst σ)

def substChildren (σ : String → Value) : List Condition → List Condition
  | [] => []
  | c :: cs => c.subst σ :: substChildren σ cs

end

theorem substChildren_eq_map (cs : List Condition) : substChildren σ cs = cs.map (subst σ) := by
  induction cs with
  | nil => rfl
  | cons c cs ih => simp [substChildren, ih]

theorem Admitted.subst {k : Comparison} {column : Column} (h : Admitted k column) (name : String) :
    Admitted k ⟨name, asOperand k (column.value.subst σ)⟩ := by
  cases k with
  | isIn => cases column.value.subst σ <;> rfl
  | between =>
      obtain ⟨low, high, hv⟩ := h.exists_bounds
      rw [hv]
      rfl
  | equal | greater | greaterEqual | less | lessEqual | like => rfl

mutual

theorem bind_eq_subst : ∀ {c : Condition}, c.Each Admitted →
    (∀ n ∈ c.params, p.value? n = some (σ n)) → c.bind p = .ok (c.subst σ)
  | .compare k column, hc, h => by
      rw [bind, Value.bind_eq_subst h, Outcome.ok_bind, ofColumn_eq_ok]
      exact ⟨hc.subst column.name, rfl⟩
  | .group k children, hc, h => by
      rw [bind, bindChildren_eq_subst hc h, subst]
      rfl
  | .not inner, hc, h => by
      rw [bind, bind_eq_subst (c := inner) hc h, subst]
      rfl

theorem bindChildren_eq_subst : ∀ {cs : List Condition}, AllEach Admitted cs →
    (∀ n ∈ childParams cs, p.value? n = some (σ n)) →
      bindChildren p cs = .ok (substChildren σ cs)
  | [], _, _ => rfl
  | c :: cs, hc, h => by
      simp only [childParams, List.mem_append, or_imp, forall_and] at h
      rw [bindChildren, bind_eq_subst hc.1 h.1, bindChildren_eq_subst hc.2 h.2]
      rfl

end

theorem params_asOperand (k : Comparison) (v : Value) : (asOperand k v).params = v.params := by
  cases k with
  | isIn =>
      cases v with
      | list items => rfl
      | null | bool | int | float | string | document | param =>
          simp [asOperand, Value.params, Value.itemParams]
  | equal | greater | greaterEqual | less | lessEqual | like | between => rfl

mutual

theorem params_subst : ∀ c : Condition, (c.subst σ).params = c.params.flatMap fun n => (σ n).params
  | .compare k column => by
      rw [subst, params, params_asOperand]
      exact Value.params_subst column.value
  | .group k children => childParams_subst children
  | .not inner => params_subst inner

theorem childParams_subst : ∀ cs : List Condition,
    childParams (substChildren σ cs) = (childParams cs).flatMap fun n => (σ n).params
  | [] => rfl
  | c :: cs => by
      rw [substChildren, childParams, childParams, List.flatMap_append, params_subst c,
        childParams_subst cs]

end

theorem asOperand_of_admitted {k : Comparison} {column : Column} (h : Admitted k column)
    (hclosed : column.value.params = []) : asOperand k column.value = column.value := by
  cases k with
  | isIn =>
      unfold Admitted at h
      cases hv : column.value with
      | list items => rfl
      | param name =>
          rw [hv] at hclosed
          cases hclosed
      | null | bool | int | float | string | document =>
          rw [hv] at h
          cases h
  | equal | greater | greaterEqual | less | lessEqual | like | between => rfl

mutual

theorem subst_of_params_eq_nil : ∀ {c : Condition}, c.Each Admitted → c.params = [] →
    c.subst σ = c
  | .compare k column, hc, h => by
      rw [subst, Value.subst_of_params_eq_nil h, asOperand_of_admitted hc h]
  | .group k children, hc, h => by rw [subst, substChildren_of_params_eq_nil hc h]
  | .not inner, hc, h => by rw [subst, subst_of_params_eq_nil (c := inner) hc h]

theorem substChildren_of_params_eq_nil : ∀ {cs : List Condition}, AllEach Admitted cs →
    childParams cs = [] → substChildren σ cs = cs
  | [], _, _ => rfl
  | c :: cs, hc, h => by
      obtain ⟨hfirst, hmore⟩ := List.append_eq_nil_iff.1 h
      rw [substChildren, subst_of_params_eq_nil hc.1 hfirst,
        substChildren_of_params_eq_nil hc.2 hmore]

end

end Condition

namespace Command

variable {p : Params} {σ : String → Value}

def subst (σ : String → Value) : Command → Command
  | .select q => .select { q with condition := q.condition.map (Condition.subst σ) }
  | .delete q => .delete { q with condition := q.condition.map (Condition.subst σ) }
  | .insert r ttl => .insert { r with columns := Value.substColumns σ r.columns } ttl
  | .update r => .update { r with columns := Value.substColumns σ r.columns }

def condition? : Command → Option Condition
  | .select q => q.condition
  | .delete q => q.condition
  | .insert .. | .update _ => none

def Admitted (s : Command) : Prop := ∀ c ∈ s.condition?, c.Each Condition.Admitted

theorem bindCondition_eq_subst {c : Option Condition} (hc : ∀ d ∈ c, d.Each Condition.Admitted)
    (h : ∀ n ∈ (c.map Condition.params).getD [], p.value? n = some (σ n)) :
    bindCondition p c = .ok (c.map (Condition.subst σ)) := by
  cases c with
  | none => rfl
  | some c =>
      rw [bindCondition, Condition.bind_eq_subst (hc c rfl) h]
      rfl

theorem bind_eq_subst {s : Command} (hs : s.Admitted)
    (h : ∀ n ∈ s.params, p.value? n = some (σ n)) : s.bind p = .ok (s.subst σ) := by
  cases s with
  | select q | delete q =>
      have hcondition : bindCondition p q.condition = _ := bindCondition_eq_subst hs h
      rw [bind, hcondition]
      rfl
  | insert r ttl | update r =>
      rw [bind, Record.bind, Value.bindColumns_eq_subst h]
      rfl

theorem params_subst (s : Command) :
    (s.subst σ).params = s.params.flatMap fun n => (σ n).params := by
  have hcondition : ∀ c : Option Condition,
      ((c.map (Condition.subst σ)).map Condition.params).getD [] =
        ((c.map Condition.params).getD []).flatMap fun n => (σ n).params := by
    intro c
    cases c with
    | none => rfl
    | some c => exact Condition.params_subst c
  cases s with
  | select q | delete q => exact hcondition q.condition
  | insert r ttl | update r => exact Value.columnParams_subst r.columns

theorem subst_of_params_eq_nil {s : Command} (hs : s.Admitted) (h : s.params = []) :
    s.subst σ = s := by
  have hcondition : ∀ {c : Option Condition}, (∀ d ∈ c, d.Each Condition.Admitted) →
      (c.map Condition.params).getD [] = [] → c.map (Condition.subst σ) = c := by
    intro c hc hclosed
    cases c with
    | none => rfl
    | some c => exact congrArg some (Condition.subst_of_params_eq_nil (hc c rfl) hclosed)
  cases s with
  | select q | delete q =>
      have hsame : q.condition.map (Condition.subst σ) = q.condition := hcondition hs h
      rw [subst, hsame]
  | insert r ttl | update r => rw [subst, Value.substColumns_of_params_eq_nil h]

theorem admitted_of_resolve {naming : Naming} {w : Written} {s : Command}
    (h : w.resolve naming = .ok s) : s.Admitted := by
  have hcondition : ∀ {field : String → String} {c : Option Clause} {tree : Option Condition},
      Clause.resolveSome field c = .ok tree → ∀ d ∈ tree, d.Each Condition.Admitted := by
    intro field c tree h d hd
    cases c with
    | none =>
        cases h
        cases hd
    | some c =>
        obtain ⟨t, ht, rfl⟩ := Outcome.map_eq_ok.1 h
        cases hd
        exact Clause.each_admitted_of_resolve ht
  cases w with
  | select q | delete q =>
      obtain ⟨tree, htree, h⟩ := Outcome.bind_eq_ok.1 h
      cases h
      exact hcondition htree
  | insert r ttl | update r =>
      cases h
      intro c hc
      cases hc

end Command

end RecordQuery
