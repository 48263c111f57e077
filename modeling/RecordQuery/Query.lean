import RecordQuery.Naming
import RecordQuery.Statement.Text
import RecordQuery.Written.Statement

namespace RecordQuery

namespace Clause

mutual

/-- The condition of a clause under the given names of fields. Negations of negations cancel, and a
chain is joined from left to right. -/
def resolve (field : String → String) : Clause → Outcome Condition
  | .compare name c v => Condition.ofColumn c ⟨field name, v⟩
  | .not inner => (inner.resolve field).map Condition.negate
  | .chain first rest => do
      let left ← first.resolve field
      resolveRest field left rest

def resolveRest (field : String → String) (left : Condition) :
    List (Connective × Clause) → Outcome Condition
  | [] => .ok left
  | (c, next) :: rest => do
      let right ← next.resolve field
      resolveRest field (left.join c right) rest

end

def resolveSome (field : String → String) : Option Clause → Outcome (Option Condition)
  | none => .ok none
  | some c => (c.resolve field).map some

end Clause

def Record.rename (naming : Naming) (r : Record) : Record :=
  ⟨naming.entity r.entity, r.columns.map fun c => ⟨naming.field r.entity c.name, c.value⟩⟩

namespace Written

/-- The statement under stored names. Fields are named by the entity as it is written. -/
def resolve (naming : Naming) : Written → Outcome Command
  | .select q => do
      let field := naming.field q.entity
      let condition ← Clause.resolveSome field q.condition
      .ok (.select ⟨naming.entity q.entity, q.fields.map field, condition,
        q.sorts.map fun s => ⟨field s.name, s.direction⟩, q.limit, q.skip⟩)
  | .delete q => do
      let field := naming.field q.entity
      let condition ← Clause.resolveSome field q.condition
      .ok (.delete ⟨naming.entity q.entity, q.fields.map field, condition⟩)
  | .insert r ttl => .ok (.insert (r.rename naming) ttl)
  | .update r => .ok (.update (r.rename naming))

end Written

structure Query where
  command : Command
  params : Params
  deriving Repr

namespace Query

def ofWritten (naming : Naming) (w : Written) : Outcome Query :=
  (w.resolve naming).map fun command => ⟨command, Params.empty.declareAll w.params⟩

def parse (limits : Limits) (naming : Naming) (text : String) : Outcome Query := do
  let w ← Written.ofText limits text
  ofWritten naming w

def isParameterized (q : Query) : Bool := !q.params.names.isEmpty

def plain (q : Query) : Outcome Command :=
  if q.isParameterized then .error (.parametersRequirePrepare q.params.names)
  else .ok q.command

def same (p q : Query) : Bool := p.command.same q.command && p.params.names = q.params.names

end Query

end RecordQuery
