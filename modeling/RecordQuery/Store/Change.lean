import RecordQuery.Backend
import RecordQuery.Store.Rows

/-!
Changing a store, and the store as a backend. Each change names the store that it leaves wherever it
ends, with an error or without.
-/

namespace RecordQuery.Store

def without (fields : List String) (r : Record) : Record :=
  { r with columns := r.columns.filter fun c => !fields.contains c.name }

def hits (condition : Option Condition) : List Entry → Outcome (List Bool)
  | [] => .ok []
  | e :: es => do
      let hit ← Condition.holdsIfAny condition e.record
      let rest ← hits condition es
      .ok (hit :: rest)

/-- Entries without those hit, or with the listed columns taken from those hit. -/
def erase (fields : List String) : List Bool → List Entry → List Entry
  | hit :: hits, e :: es =>
      if hit then
        if fields = [] then erase fields hits es
        else { e with record := without fields e.record } :: erase fields hits es
      else e :: erase fields hits es
  | _, es => es

def delete (s : Store) (q : Deletion) : Outcome Unit × Store :=
  match s.entries? q.entity with
  | none => (.ok (), s)
  | some es =>
      match hits q.condition es with
      | .error e => (.error e, s)
      | .ok hs => (.ok (), s.withEntries q.entity (erase q.fields hs es))

def rejectParams (r : Record) : Outcome Unit :=
  match r.params with
  | [] => .ok ()
  | name :: _ => .error (.unsupported s!"memory backend cannot store unbound parameter @{name}")

def insert (s : Store) (r : Record) (ttl : Option Ttl) : Outcome Record × Store :=
  match rejectParams r with
  | .error e => (.error e, s)
  | .ok () => (.ok r, s.withEntries r.entity (s.entries r.entity ++ [⟨r, ttl⟩]))

def hasKey (key : Column) (r : Record) : Bool :=
  match r.find? key.name with
  | some v => v.equal key.value
  | none => false

/-- Puts a record in the place of the first with the key, else at the end. -/
def replace (key : Column) (r : Record) : List Entry → List Entry
  | [] => [⟨r, none⟩]
  | e :: es => if hasKey key e.record then { e with record := r } :: es else e :: replace key r es

def update (s : Store) (r : Record) : Outcome Record × Store :=
  match rejectParams r with
  | .error e => (.error e, s)
  | .ok () =>
      match r.columns with
      | [] => (.error (.unsupported "update requires at least one column"), s)
      | key :: _ => (.ok r, s.withEntries r.entity (replace key r (s.entries r.entity)))

def backend : Backend Store where
  select q s := (s.select q, s)
  delete q s := s.delete q
  insert r ttl s := s.insert r ttl
  update r s := s.update r

end RecordQuery.Store
