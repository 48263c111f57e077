import RecordQuery.Statement.Text

/-!
Backends: where statements are carried out. Each verb takes the state of the backend to an outcome
and a new state.
-/

namespace RecordQuery

structure Backend (σ : Type) where
  select : Selection → σ → Outcome (List Record) × σ
  delete : Deletion → σ → Outcome Unit × σ
  insert : Record → Option Ttl → σ → Outcome Record × σ
  update : Record → σ → Outcome Record × σ

def mapOutcome {α β σ : Type} (f : α → β) (r : Outcome α × σ) : Outcome β × σ := (r.1.map f, r.2)

namespace Backend

variable {σ : Type}

/-- Carries a statement out with one verb: a deletion returns no record, an insertion and an update
the stored one. -/
def execute (b : Backend σ) (s : Command) (state : σ) : Outcome (List Record) × σ :=
  match s with
  | .select q => b.select q state
  | .delete q => mapOutcome (fun _ => []) (b.delete q state)
  | .insert r ttl => mapOutcome (fun r => [r]) (b.insert r ttl state)
  | .update r => mapOutcome (fun r => [r]) (b.update r state)

/-- Writes records in order, up to the first that fails. -/
def writeAll (write : Record → σ → Outcome Record × σ) :
    List Record → σ → Outcome (List Record) × σ
  | [], state => (.ok [], state)
  | r :: rs, state =>
      match write r state with
      | (.error e, state) => (.error e, state)
      | (.ok r, state) => mapOutcome (r :: ·) (writeAll write rs state)

def insertAll (b : Backend σ) (rs : List Record) (ttl : Option Ttl) :
    σ → Outcome (List Record) × σ :=
  writeAll (fun r => b.insert r ttl) rs

def updateAll (b : Backend σ) (rs : List Record) : σ → Outcome (List Record) × σ :=
  writeAll b.update rs

end Backend

def single (rows : List Record) : Outcome (Option Record) :=
  if 1 < rows.length then .error (.nonUniqueResult rows.length) else .ok rows.head?

/-- A backend that notes what it is asked. Selections return the given rows and writes their own
record, unless it is to fail. -/
structure Recorder where
  rows : List Record
  failure : Option String
  calls : List Command
  deriving Repr

namespace Recorder

def answer {α : Type} (s : Command) (a : Recorder → α) (r : Recorder) : Outcome α × Recorder :=
  let noted := { r with calls := r.calls ++ [s] }
  match r.failure with
  | some message => (.error (.unsupported message), noted)
  | none => (.ok (a r), noted)

def backend : Backend Recorder where
  select q := answer (.select q) rows
  delete q := answer (.delete q) fun _ => ()
  insert record ttl := answer (.insert record ttl) fun _ => record
  update record := answer (.update record) fun _ => record

end Recorder

end RecordQuery
