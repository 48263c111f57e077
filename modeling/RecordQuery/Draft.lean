import RecordQuery.Statement.Basic

/-!
Queries put together call by call. A field is named first and compared next; each comparison joins
the condition so far. The first call out of turn is kept and reported in the end.
-/

namespace RecordQuery

inductive Test where
  | plain (comparison : Comparison) (v : Value)
  | isIn (vs : List Value)
  | between (low high : Value)
  deriving Repr

namespace Test

def on (field : String) : Test → Outcome Condition
  | .plain c v => Condition.ofColumn c ⟨field, v⟩
  | .isIn vs => Condition.ofColumn .isIn ⟨field, .list vs⟩
  | .between low high => Condition.ofColumn .between ⟨field, .list [low, high]⟩

end Test

structure Filter where
  field : Option String
  connective : Option Connective
  negated : Bool
  condition : Option Condition
  deriving Repr

namespace Filter

def empty : Filter := ⟨none, none, false, none⟩

def start (f : Filter) (connective : Option Connective) (field : String) : Outcome Filter :=
  if f.field.isSome then .error (.misuse .pendingField)
  else
    match connective, f.condition with
    | none, some _ => .error (.misuse .secondWhere)
    | some _, none => .error (.misuse .noWhere)
    | _, _ => .ok { f with field := some field, connective := connective, negated := false }

def negate (f : Filter) : Outcome Filter :=
  if f.field.isSome then .ok { f with negated := !f.negated }
  else .error (.misuse .notWithoutField)

def add (f : Filter) (next : Condition) : Condition :=
  match f.condition, f.connective with
  | some left, some c => left.join c next
  | _, _ => next

def test (f : Filter) (t : Test) : Outcome Filter :=
  match f.field with
  | none => .error (.misuse .comparisonWithoutField)
  | some field => do
      let next ← t.on field
      let next := if f.negated then next.negate else next
      .ok { f with field := none, negated := false, condition := some (f.add next) }

def finish (f : Filter) : Outcome (Option Condition) :=
  if f.field.isSome then .error (.misuse .danglingField) else .ok f.condition

end Filter

inductive Call where
  | source (entity : String)
  | first (field : String)
  | link (connective : Connective) (field : String)
  | not
  | test (t : Test)
  | orderBy (field : String)
  | direction (d : Direction)
  | limit (n : UInt64)
  | skip (n : UInt64)
  deriving Repr

structure Draft where
  fields : List String
  entity : Option String
  filter : Filter
  sorts : List SortKey
  pending : Option String
  limit : UInt64
  skip : UInt64
  error : Option QueryError
  deriving Repr

namespace Draft

def ofFields (fields : List String) : Draft := ⟨fields, none, .empty, [], none, 0, 0, none⟩

/-- Changes the condition, unless a call was out of turn before; a failure is kept. -/
def refine (d : Draft) (step : Filter → Outcome Filter) : Draft :=
  match d.error with
  | some _ => d
  | none =>
      match step d.filter with
      | .ok f => { d with filter := f }
      | .error e => { d with error := some e }

def flush (d : Draft) (direction : Direction) : Draft :=
  match d.pending with
  | none => d
  | some name => { d with sorts := d.sorts ++ [⟨name, direction⟩], pending := none }

def direct (d : Draft) (direction : Direction) : Draft :=
  if d.error.isNone ∧ d.pending.isNone then
    { d with error := some (.misuse .directionWithoutSort) }
  else d.flush direction

def call (d : Draft) : Call → Draft
  | .source entity => { d with entity := some entity }
  | .first field => d.refine fun f => f.start none field
  | .link c field => d.refine fun f => f.start (some c) field
  | .not => d.refine Filter.negate
  | .test t => d.refine fun f => f.test t
  | .orderBy field => { d.flush .ascending with pending := some field }
  | .direction direction => d.direct direction
  | .limit n => { d with limit := n }
  | .skip n => { d with skip := n }

def calls (d : Draft) (cs : List Call) : Draft := cs.foldl call d

def finish (d : Draft) (verb : Verb) : Outcome (String × Option Condition) :=
  match d.error, d.entity with
  | some e, _ => .error e
  | none, none => .error (.missingEntity verb)
  | none, some entity => d.filter.finish.map fun condition => (entity, condition)

def select (d : Draft) : Outcome Selection :=
  (d.finish .select).map fun (entity, condition) =>
    ⟨entity, d.fields, condition, (d.flush .ascending).sorts, d.limit, d.skip⟩

def delete (d : Draft) : Outcome Deletion :=
  (d.finish .delete).map fun (entity, condition) => ⟨entity, d.fields, condition⟩

end Draft

end RecordQuery
