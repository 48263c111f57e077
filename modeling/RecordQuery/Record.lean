import RecordQuery.Params
import RecordQuery.Value.Json
import RecordQuery.Value.Text

namespace RecordQuery

structure Record where
  entity : String
  columns : List Column
  deriving DecidableEq, Repr

namespace Record

def find? (r : Record) (name : String) : Option Value := Named.find? name r.columns

def get {α : Type} (r : Record) (name : String) (read : Value → Outcome α) :
    Outcome (Option α) :=
  match r.find? name with
  | none => .ok none
  | some v => (read v).map some

def params (r : Record) : List String := Value.columnParams r.columns

def bind (p : Params) (r : Record) : Outcome Record :=
  (Value.bindColumns p r.columns).map fun columns => { r with columns := columns }

def toJson (r : Record) : Json := .ofFields (Value.toJsonFields r.columns)

def text (r : Record) : String :=
  r.entity ++ " (" ++
    Text.commaJoined (r.columns.map fun c => c.name ++ " = " ++ c.value.text) ++ ")"

def same (r s : Record) : Bool := r.entity = s.entity && Value.sameColumns r.columns s.columns

end Record

end RecordQuery
