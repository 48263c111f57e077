import RecordQuery.Json.Printer
import RecordQuery.Record
import RecordQuery.Ttl

/-!
A store of records: for each entity its records in the order in which they came, each with its time
to live, which is noted but never runs out.
-/

namespace RecordQuery

structure Entry where
  record : Record
  ttl : Option Ttl
  deriving Repr

structure Store where
  entities : List (Named (List Entry))
  deriving Repr

namespace Store

def empty : Store := ⟨[]⟩

def entries? (s : Store) (entity : String) : Option (List Entry) := Named.find? entity s.entities

def entries (s : Store) (entity : String) : List Entry := (s.entries? entity).getD []

def records (s : Store) (entity : String) : List Record := (s.entries entity).map Entry.record

def ttls (s : Store) (entity : String) : List (Option Ttl) := (s.entries entity).map Entry.ttl

def size (s : Store) (entity : String) : Nat := (s.entries entity).length

def isEmpty (s : Store) : Bool := s.entities.all fun e => e.value.isEmpty

def withEntries (s : Store) (entity : String) (es : List Entry) : Store :=
  ⟨Named.put entity es s.entities⟩

theorem entries_withEntries_self (s : Store) (entity : String) (es : List Entry) :
    (s.withEntries entity es).entries entity = es := by
  simp [entries, entries?, withEntries, Named.find?_put_self]

theorem entries_withEntries_of_ne {entity other : String} (s : Store) (es : List Entry)
    (h : entity ≠ other) : (s.withEntries entity es).entries other = s.entries other := by
  simp [entries, entries?, withEntries, Named.find?_put_of_ne es h]

def misshaped {α : Type} (data : Json) (target : Target) : Outcome α :=
  .error (.conversion data.compact target)

def entryOfJson (entity : String) (row : Json) : Outcome Entry :=
  match Value.ofJson row with
  | .document columns => .ok ⟨⟨entity, columns⟩, none⟩
  | other => misshaped other.toJson .recordObject

def entriesOfJson (field : Named Json) : Outcome (Named (List Entry)) :=
  match field.value with
  | .array rows => (rows.mapM (entryOfJson field.name)).map fun es => ⟨field.name, es⟩
  | other => misshaped other .recordArray

def ofJson (data : Json) : Outcome Store :=
  match data with
  | .object fields => (fields.mapM entriesOfJson).map Store.mk
  | other => misshaped other .entityArrays

def toJson (s : Store) : Json :=
  .ofFields (s.entities.map fun e => ⟨e.name, .array (e.value.map fun x => x.record.toJson)⟩)

end Store

end RecordQuery
