import RecordQuery.Cache
import RecordQuery.Prepared

namespace RecordQuery

structure Engine where
  cache : Cache
  naming : Naming

namespace Engine

variable {σ : Type}

def ofLimits (limits : Limits) (naming : Naming) : Engine := ⟨.ofLimits limits, naming⟩

def parse (e : Engine) (text : String) : Outcome Query × Engine :=
  let (q, cache) := e.cache.get e.naming text
  (q, { e with cache := cache })

def statement (e : Engine) (text : String) : Outcome Command × Engine :=
  let (q, e) := e.parse text
  (q.bind Query.plain, e)

def query (e : Engine) (b : Backend σ) (text : String) (state : σ) :
    Outcome (List Record) × Engine × σ :=
  match e.statement text with
  | (.error err, e) => (.error err, e, state)
  | (.ok s, e) =>
      let (rows, state) := b.execute s state
      (rows, e, state)

def prepare (e : Engine) (text : String) : Outcome Prepared × Engine :=
  let (q, e) := e.parse text
  (q.map Prepared.ofQuery, e)

end Engine

end RecordQuery
