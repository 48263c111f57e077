import RecordQuery.Condition.Bind
import RecordQuery.Record
import RecordQuery.Ttl

namespace RecordQuery

inductive Direction where
  | ascending
  | descending
  deriving DecidableEq, Repr

structure SortKey where
  name : String
  direction : Direction
  deriving DecidableEq, Repr

/-- A reading of records. Without fields all columns are returned; a limit of zero is none. -/
structure Select (κ : Type) where
  entity : String
  fields : List String
  condition : Option κ
  sorts : List SortKey
  limit : UInt64
  skip : UInt64
  deriving Repr

structure Delete (κ : Type) where
  entity : String
  fields : List String
  condition : Option κ
  deriving Repr

inductive Statement (κ : Type) where
  | select (q : Select κ)
  | delete (q : Delete κ)
  | insert (record : Record) (ttl : Option Ttl)
  | update (record : Record)
  deriving Repr

abbrev Selection := Select Condition

abbrev Deletion := Delete Condition

abbrev Command := Statement Condition

namespace Statement

variable {κ : Type}

def verb : Statement κ → Verb
  | .select _ => .select
  | .delete _ => .delete
  | .insert _ _ => .insert
  | .update _ => .update

/-- The names of the parameters in a statement, from left to right, with repeats. -/
def paramsBy (conditionParams : κ → List String) : Statement κ → List String
  | .select q => (q.condition.map conditionParams).getD []
  | .delete q => (q.condition.map conditionParams).getD []
  | .insert r _ => r.params
  | .update r => r.params

end Statement

namespace Command

def params (s : Command) : List String := s.paramsBy Condition.params

def bindCondition (p : Params) : Option Condition → Outcome (Option Condition)
  | none => .ok none
  | some c => (c.bind p).map some

def bind (p : Params) : Command → Outcome Command
  | .select q => (bindCondition p q.condition).map fun c => .select { q with condition := c }
  | .delete q => (bindCondition p q.condition).map fun c => .delete { q with condition := c }
  | .insert r ttl => (r.bind p).map fun r => .insert r ttl
  | .update r => (r.bind p).map .update

def sameCondition : Option Condition → Option Condition → Bool
  | none, none => true
  | some c, some d => c.same d
  | _, _ => false

def same : Command → Command → Bool
  | .select a, .select b =>
      a.entity = b.entity && a.fields = b.fields && sameCondition a.condition b.condition &&
        a.sorts = b.sorts && a.limit = b.limit && a.skip = b.skip
  | .delete a, .delete b =>
      a.entity = b.entity && a.fields = b.fields && sameCondition a.condition b.condition
  | .insert r t, .insert s u => r.same s && t = u
  | .update r, .update s => r.same s
  | _, _ => false

end Command

end RecordQuery
