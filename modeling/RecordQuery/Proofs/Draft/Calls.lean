import RecordQuery.Draft
import RecordQuery.Proofs.Grammar.Spelling

namespace RecordQuery

namespace Test

def comparison : Test → Comparison
  | .plain c _ => c
  | .isIn _ => .isIn
  | .between .. => .between

def operand : Test → Value
  | .plain _ v => v
  | .isIn vs => .list vs
  | .between low high => .list [low, high]

theorem on_eq (t : Test) (field : String) :
    t.on field = Condition.ofColumn t.comparison ⟨field, t.operand⟩ := by
  cases t <;> rfl

end Test

namespace Call

def inCondition : Call → Bool
  | .first _ | .link .. | .not | .test _ => true
  | _ => false

def inSorting : Call → Bool
  | .orderBy _ | .direction _ => true
  | _ => false

def source? : Call → Option String
  | .source entity => some entity
  | _ => none

def limit? : Call → Option UInt64
  | .limit n => some n
  | _ => none

def skip? : Call → Option UInt64
  | .skip n => some n
  | _ => none

end Call

def Filter.call (f : Filter) : Call → Outcome Filter
  | .first field => f.start none field
  | .link k field => f.start (some k) field
  | .not => f.negate
  | .test t => f.test t
  | .source _ | .orderBy _ | .direction _ | .limit _ | .skip _ => .ok f

namespace Draft

variable {d : Draft} {c : Call}

theorem calls_append (d : Draft) (cs cs' : List Call) :
    d.calls (cs ++ cs') = (d.calls cs).calls cs' := List.foldl_append

theorem calls_cons (d : Draft) (c : Call) (cs : List Call) :
    d.calls (c :: cs) = (d.call c).calls cs := rfl

theorem calls_concat (d : Draft) (cs : List Call) (c : Call) :
    d.calls (cs ++ [c]) = (d.calls cs).call c := by
  rw [calls_append]
  rfl

theorem call_of_inCondition (d : Draft) (hc : c.inCondition = true) :
    d.call c = d.refine fun f => f.call c := by
  cases c <;> first | rfl | cases hc

theorem refine_eq (d : Draft) (step : Filter → Outcome Filter) :
    ∃ f error, d.refine step = { d with filter := f, error := error } ∧
      (f = d.filter ∨ step d.filter = .ok f) := by
  unfold refine
  split
  · exact ⟨d.filter, d.error, rfl, .inl rfl⟩
  · split
    · next g hstep => exact ⟨g, _, rfl, .inr hstep⟩
    · exact ⟨d.filter, _, rfl, .inl rfl⟩

theorem filter_call (d : Draft) (c : Call) :
    (d.call c).filter = d.filter ∨ d.filter.call c = .ok (d.call c).filter := by
  cases hc : c.inCondition with
  | true =>
      obtain ⟨f, error, hrefine, hf⟩ := refine_eq d fun f => f.call c
      rw [call_of_inCondition d hc, hrefine]
      exact hf
  | false =>
      obtain ⟨fields, entity, f, sorts, pending, limit, skip, error⟩ := d
      left
      cases c with
      | orderBy => cases pending <;> rfl
      | direction => cases pending <;> cases error <;> rfl
      | source | limit | skip => rfl
      | first | link | not | test => cases hc

theorem call_set (d : Draft) (c : Call) :
    (d.call c).fields = d.fields ∧ (d.call c).entity = c.source?.or d.entity ∧
      (d.call c).limit = c.limit?.getD d.limit ∧ (d.call c).skip = c.skip?.getD d.skip := by
  cases hc : c.inCondition with
  | true =>
      obtain ⟨f, error, hrefine, -⟩ := refine_eq d fun f => f.call c
      rw [call_of_inCondition d hc, hrefine]
      cases c with
      | first | link | not | test => exact ⟨rfl, rfl, rfl, rfl⟩
      | source | orderBy | direction | limit | skip => cases hc
  | false =>
      obtain ⟨fields, entity, f, sorts, pending, limit, skip, error⟩ := d
      cases c with
      | orderBy => cases pending <;> exact ⟨rfl, rfl, rfl, rfl⟩
      | direction => cases pending <;> cases error <;> exact ⟨rfl, rfl, rfl, rfl⟩
      | source | limit | skip => exact ⟨rfl, rfl, rfl, rfl⟩
      | first | link | not | test => cases hc

theorem call_orderBy (d : Draft) (name : String) :
    ∃ sorts pending, d.call (.orderBy name) =
      { d with sorts := sorts, pending := pending } := by
  obtain ⟨fields, entity, f, sorts, pending, limit, skip, error⟩ := d
  cases pending <;> exact ⟨_, _, rfl⟩

theorem call_direction (d : Draft) (direction : Direction) :
    ∃ sorts pending error, d.call (.direction direction) =
      { d with sorts := sorts, pending := pending, error := error } := by
  obtain ⟨fields, entity, f, sorts, pending, limit, skip, error⟩ := d
  cases pending <;> cases error <;> exact ⟨_, _, _, rfl⟩

theorem error_call_of_some {e : QueryError} (h : d.error = some e) (c : Call) :
    (d.call c).error = some e := by
  obtain ⟨fields, entity, f, sorts, pending, limit, skip, error⟩ := d
  cases h
  cases c with
  | orderBy | direction => cases pending <;> rfl
  | source | first | link | not | test | limit | skip => rfl

theorem error_calls_of_some {e : QueryError} (h : d.error = some e) (cs : List Call) :
    (d.calls cs).error = some e := by
  induction cs generalizing d with
  | nil => exact h
  | cons c cs ih => exact ih (error_call_of_some h c)

theorem finish_eq_ok {verb : Verb} {entity : String} {condition : Option Condition} :
    d.finish verb = .ok (entity, condition) ↔
      d.error = none ∧ d.entity = some entity ∧ d.filter.finish = .ok condition := by
  unfold finish
  cases d.error with
  | some e => simp
  | none =>
      cases d.entity with
      | none => simp
      | some source =>
          rw [Outcome.map_eq_ok]
          simp only [Prod.mk.injEq, Option.some.injEq, true_and]
          exact ⟨fun ⟨_, h, hsource, hcondition⟩ => ⟨hsource, hcondition ▸ h⟩,
            fun ⟨hsource, h⟩ => ⟨condition, h, hsource, rfl⟩⟩

end Draft

end RecordQuery
