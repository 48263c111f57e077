import RecordQuery.Named
import RecordQuery.Number.Double

/-!
Data in JSON form. Numbers are integers or binary floating point numbers. An object that is read,
or made from fields by `ofFields`, has them in rising order of their names, each name once.
-/

namespace RecordQuery

inductive Json where
  | null
  | bool (b : Bool)
  | int (i : Int)
  | decimal (x : Double)
  | string (s : String)
  | array (items : List Json)
  | object (fields : List (Named Json))
  deriving Repr

namespace Json

def insertField (name : String) (v : Json) : List (Named Json) → List (Named Json)
  | [] => [⟨name, v⟩]
  | c :: cs =>
      if name < c.name then ⟨name, v⟩ :: c :: cs
      else if c.name = name then ⟨name, v⟩ :: cs
      else c :: insertField name v cs

def ofFields (fields : List (Named Json)) : Json :=
  .object (fields.foldl (fun done c => insertField c.name c.value done) [])

end Json

end RecordQuery
