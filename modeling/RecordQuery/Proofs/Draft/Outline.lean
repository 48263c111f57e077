import RecordQuery.Proofs.Condition.Resolve
import RecordQuery.Proofs.Draft.Calls
import RecordQuery.Proofs.Grammar.Statement

namespace RecordQuery

namespace Test

/-- A test that has a call of its own: lists and bounds are not given as plain values. -/
def Fluent : Test → Prop
  | .plain c _ => c ≠ .isIn ∧ c ≠ .between
  | .isIn _ | .between .. => True

theorem Fluent.admitted {t : Test} (h : t.Fluent) (field : String) :
    Condition.Admitted t.comparison ⟨field, t.operand⟩ := by
  cases t with
  | plain c v =>
      obtain ⟨hin, hbetween⟩ := h
      cases c <;> first | exact absurd rfl hin | exact absurd rfl hbetween | rfl
  | isIn | between => rfl

theorem on_of_fluent {t : Test} (h : t.Fluent) (field : String) :
    t.on field = .ok (.compare t.comparison ⟨field, t.operand⟩) := by
  rw [on_eq]
  exact Condition.ofColumn_eq_ok.2 ⟨h.admitted field, rfl⟩

end Test

namespace Condition

def negateTimes : Nat → Condition → Condition
  | 0, c => c
  | n + 1, c => (negateTimes n c).negate

theorem negateTimes_compare (n : Nat) (k : Comparison) (column : Column) :
    negateTimes n (.compare k column) =
      if n % 2 = 1 then .not (.compare k column) else .compare k column := by
  induction n with
  | zero => rfl
  | succ n ih =>
      rw [negateTimes, ih]
      by_cases hodd : n % 2 = 1
      · have heven : (n + 1) % 2 ≠ 1 := by omega
        rw [if_pos hodd, if_neg heven]
        rfl
      · have hodd' : (n + 1) % 2 = 1 := by omega
        rw [if_neg hodd, if_pos hodd']
        rfl

end Condition

namespace Draft

/-- A comparison that is asked for: a field, how often `not` is called, and a test. -/
structure Asked where
  field : String
  negations : Nat
  test : Test
  deriving Repr

structure Asking where
  first : Asked
  more : List (Connective × Asked)
  deriving Repr

structure Outline where
  fields : List String
  entity : String
  asking : Option Asking
  deriving Repr

structure Listing extends Outline where
  sorts : List Written.SortField
  skip : Option UInt64
  limit : Option UInt64
  deriving Repr

namespace Asked

def leaf (a : Asked) : Condition := .compare a.test.comparison ⟨a.field, a.test.operand⟩

def condition (a : Asked) : Condition := a.leaf.negateTimes a.negations

def calls (a : Asked) : List Call := List.replicate a.negations .not ++ [.test a.test]

theorem condition_eq (a : Asked) :
    a.condition = if decide (a.negations % 2 = 1) then a.leaf.negate else a.leaf := by
  rw [condition, leaf, Condition.negateTimes_compare]
  simp only [decide_eq_true_eq]
  rfl

end Asked

/-- The builder keeps a flag, which holds the parity of the negations. -/
theorem flag_succ (n : Nat) : (!decide (n % 2 = 1)) = decide ((n + 1) % 2 = 1) := by
  rw [← decide_not]
  exact decide_eq_decide.2 (by omega)

namespace Asking

def condition (a : Asking) : Condition :=
  Condition.joinAll a.first.condition (a.more.map fun next => (next.1, next.2.condition))

def linkCalls (next : Connective × Asked) : List Call :=
  .link next.1 next.2.field :: next.2.calls

def calls (a : Asking) : List Call :=
  .first a.first.field :: a.first.calls ++ a.more.flatMap linkCalls

def asked (a : Asking) : List Asked := a.first :: a.more.map Prod.snd

end Asking

namespace Outline

def asked (o : Outline) : List Asked := o.asking.elim [] Asking.asked

def condition (o : Outline) : Option Condition := o.asking.map Asking.condition

def calls (o : Outline) : List Call := .source o.entity :: o.asking.elim [] Asking.calls

def deletion (o : Outline) : Deletion := ⟨o.entity, o.fields, o.condition⟩

end Outline

namespace Listing

def sortCalls (s : Written.SortField) : List Call :=
  .orderBy s.name :: s.direction.toList.map .direction

def calls (l : Listing) : List Call :=
  l.toOutline.calls ++ (l.sorts.flatMap sortCalls ++
    (l.skip.toList.map .skip ++ l.limit.toList.map .limit))

def selection (l : Listing) : Selection :=
  ⟨l.entity, l.fields, l.condition, l.sorts.map Written.SortField.key, l.limit.getD 0,
    l.skip.getD 0⟩

end Listing

variable {d : Draft}

def withFilter (d : Draft) (f : Filter) : Draft := { d with filter := f }

section Filters

variable {f g : Filter} {field : String} {connective : Option Connective}
  {condition : Option Condition} {left : Condition}

theorem refine_withFilter {step : Filter → Outcome Filter} (herror : d.error = none)
    (hstep : step f = .ok g) : (d.withFilter f).refine step = d.withFilter g := by
  unfold refine withFilter
  simp only [herror, hstep]

theorem call_first (herror : d.error = none) (field : String) :
    (d.withFilter .empty).call (.first field) =
      d.withFilter ⟨some field, none, false, none⟩ := by
  rw [call]
  exact refine_withFilter herror rfl

theorem call_link (herror : d.error = none) (k : Connective) (field : String) :
    (d.withFilter ⟨none, connective, false, some left⟩).call (.link k field) =
      d.withFilter ⟨some field, some k, false, some left⟩ := by
  rw [call]
  exact refine_withFilter herror rfl

theorem call_not (herror : d.error = none) (negated : Bool) :
    (d.withFilter ⟨some field, connective, negated, condition⟩).call .not =
      d.withFilter ⟨some field, connective, !negated, condition⟩ := by
  rw [call]
  exact refine_withFilter herror rfl

theorem call_test {t : Test} (herror : d.error = none) (ht : t.Fluent) (negated : Bool) :
    (d.withFilter ⟨some field, connective, negated, condition⟩).call (.test t) =
      d.withFilter ⟨none, connective, false, some (Filter.add ⟨some field, connective, negated,
        condition⟩ (if negated then Condition.negate (.compare t.comparison ⟨field, t.operand⟩)
          else .compare t.comparison ⟨field, t.operand⟩))⟩ := by
  rw [call]
  apply refine_withFilter herror
  simp only [Filter.test, Test.on_of_fluent ht]
  rfl

theorem calls_nots (herror : d.error = none) (n : Nat) :
    (d.withFilter ⟨some field, connective, false, condition⟩).calls (List.replicate n .not) =
      d.withFilter ⟨some field, connective, n % 2 = 1, condition⟩ := by
  induction n with
  | zero => rfl
  | succ n ih =>
      rw [List.replicate_succ', calls_append, ih, calls_cons, call_not herror, flag_succ]
      rfl

theorem calls_asked {a : Asked} (herror : d.error = none) (ha : a.test.Fluent) :
    (d.withFilter ⟨some a.field, connective, false, condition⟩).calls a.calls =
      d.withFilter ⟨none, connective, false,
        some (Filter.add ⟨some a.field, connective, false, condition⟩ a.condition)⟩ := by
  rw [Asked.calls, calls_append, calls_nots herror, calls_cons, call_test herror ha,
    a.condition_eq]
  rfl

theorem calls_links (more : List (Connective × Asked)) (herror : d.error = none)
    (hmore : ∀ next ∈ more, next.2.test.Fluent) :
    ∃ k, (d.withFilter ⟨none, connective, false, some left⟩).calls
        (more.flatMap Asking.linkCalls) =
      d.withFilter ⟨none, k, false, some (Condition.joinAll left
        (more.map fun next => (next.1, next.2.condition)))⟩ := by
  induction more generalizing connective left with
  | nil => exact ⟨connective, rfl⟩
  | cons next more ih =>
      rw [List.forall_mem_cons] at hmore
      -- what is joined so far is the left side of the next joining
      rw [List.flatMap_cons, calls_append, Asking.linkCalls, calls_cons, call_link herror,
        calls_asked herror hmore.1]
      exact ih hmore.2

theorem calls_asking {a : Asking} (herror : d.error = none)
    (ha : ∀ asked ∈ a.asked, asked.test.Fluent) :
    ∃ k, (d.withFilter .empty).calls a.calls = d.withFilter ⟨none, k, false, some a.condition⟩ := by
  rw [Asking.asked, List.forall_mem_cons, List.forall_mem_map] at ha
  rw [Asking.calls, calls_append, calls_cons, call_first herror, calls_asked herror ha.1]
  exact calls_links a.more herror ha.2

end Filters

theorem calls_outline {o : Outline} (ho : ∀ asked ∈ o.asked, asked.test.Fluent) :
    ∃ k, (ofFields o.fields).calls o.calls =
      ⟨o.fields, some o.entity, ⟨none, k, false, o.condition⟩, [], none, 0, 0, none⟩ := by
  obtain ⟨fields, entity, asking⟩ := o
  cases asking with
  | none => exact ⟨none, rfl⟩
  | some a =>
      exact @calls_asking ⟨fields, some entity, .empty, [], none, 0, 0, none⟩ a rfl ho

theorem delete_calls {o : Outline} (ho : ∀ asked ∈ o.asked, asked.test.Fluent) :
    ((ofFields o.fields).calls o.calls).delete = .ok o.deletion := by
  obtain ⟨k, hcalls⟩ := calls_outline ho
  rw [hcalls]
  rfl

section Sorts

def withSorts (d : Draft) (sorts : List SortKey) (pending : Option String) : Draft :=
  { d with sorts := sorts, pending := pending }

/-- The sort keys so far, where a field that waits for its direction is sorted in ascending
order. -/
def keys (d : Draft) : List SortKey := d.sorts ++ d.pending.toList.map (⟨·, .ascending⟩)

theorem sorts_flush (d : Draft) : (d.flush .ascending).sorts = d.keys := by
  obtain ⟨fields, entity, f, sorts, pending, limit, skip, error⟩ := d
  cases pending with
  | none => exact (List.append_nil sorts).symm
  | some name => rfl

theorem calls_sort (herror : d.error = none) (s : Written.SortField) :
    ∃ sorts pending, d.calls (Listing.sortCalls s) = d.withSorts sorts pending ∧
      (d.withSorts sorts pending).keys = d.keys ++ [s.key] := by
  obtain ⟨fields, entity, f, sorts, pending, limit, skip, error⟩ := d
  cases herror
  obtain ⟨name, direction⟩ := s
  cases pending <;> cases direction <;>
    exact ⟨_, _, rfl, by simp [keys, withSorts, Written.SortField.key, call, flush]⟩

theorem calls_sorts (herror : d.error = none) (ss : List Written.SortField) :
    ∃ sorts pending, d.calls (ss.flatMap Listing.sortCalls) = d.withSorts sorts pending ∧
      (d.withSorts sorts pending).keys = d.keys ++ ss.map Written.SortField.key := by
  induction ss generalizing d with
  | nil => exact ⟨d.sorts, d.pending, rfl, (List.append_nil d.keys).symm⟩
  | cons s ss ih =>
      obtain ⟨sorts, pending, hone, hkeys⟩ := calls_sort herror s
      have herror' : (d.withSorts sorts pending).error = none := herror
      obtain ⟨sorts', pending', hrest, hkeys'⟩ := ih herror'
      refine ⟨sorts', pending', ?_, ?_⟩
      · rw [List.flatMap_cons, calls_append, hone, hrest]
        rfl
      · rw [List.map_cons, List.append_cons, ← hkeys]
        exact hkeys'

end Sorts

theorem select_eq {entity : String} {condition : Option Condition} (herror : d.error = none)
    (hentity : d.entity = some entity) (hfilter : d.filter.finish = .ok condition) :
    d.select = .ok ⟨entity, d.fields, condition, d.keys, d.limit, d.skip⟩ := by
  unfold select finish
  simp only [herror, hentity, hfilter, Outcome.ok_map, sorts_flush]

theorem select_calls {l : Listing} (hl : ∀ asked ∈ l.asked, asked.test.Fluent) :
    ((ofFields l.fields).calls l.calls).select = .ok l.selection := by
  obtain ⟨k, hcalls⟩ := calls_outline hl
  obtain ⟨sorts, pending, hsorts, hkeys⟩ := @calls_sorts
    ⟨l.fields, some l.entity, ⟨none, k, false, l.condition⟩, [], none, 0, 0, none⟩ rfl l.sorts
  have hcounts : ∀ d : Draft, d.calls (l.skip.toList.map .skip ++ l.limit.toList.map .limit) =
      { d with skip := l.skip.getD d.skip, limit := l.limit.getD d.limit } := by
    intro d
    cases l.skip <;> cases l.limit <;> rfl
  rw [Listing.calls, calls_append, hcalls, calls_append, hsorts, hcounts, select_eq rfl rfl rfl,
    Listing.selection]
  exact congrArg (fun keys : List SortKey => (Except.ok ⟨l.entity, l.fields, l.condition, keys,
    l.limit.getD 0, l.skip.getD 0⟩ : Outcome Selection)) hkeys

end Draft

end RecordQuery
