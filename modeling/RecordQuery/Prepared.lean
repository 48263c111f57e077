import RecordQuery.Backend
import RecordQuery.Query

namespace RecordQuery

structure Prepared where
  command : Command
  params : Params
  deriving Repr

namespace Prepared

variable {σ : Type}

def ofQuery (q : Query) : Prepared := ⟨q.command, q.params⟩

def bind (p : Prepared) (name : String) (v : Value) : Prepared :=
  { p with params := p.params.bind name v }

def bindAll (p : Prepared) (binds : List (String × Value)) : Prepared :=
  binds.foldl (fun p b => p.bind b.1 b.2) p

def bound (p : Prepared) : Outcome Command :=
  if p.params.unbound = [] then p.command.bind p.params
  else .error (.unboundParameters p.params.unbound)

/-- Carries the statement out; nothing is asked of the backend while a parameter is unbound. -/
def execute (p : Prepared) (b : Backend σ) (state : σ) : Outcome (List Record) × σ :=
  match p.bound with
  | .ok s => b.execute s state
  | .error e => (.error e, state)

end Prepared

end RecordQuery
