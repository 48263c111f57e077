import RecordQuery.Json.Basic
import RecordQuery.Number.Integer
import RecordQuery.Value.Basic

namespace RecordQuery.Value

mutual

/-- The value of JSON data: an integer that fits 64 bits stays one, other numbers are floating. -/
def ofJson : Json → Value
  | .null => .null
  | .bool b => .bool b
  | .int i =>
      match Number.toInt64? i with
      | some w => .int w
      | none => .float (.ofInt i)
  | .decimal x => .float x
  | .string s => .string s
  | .array items => .list (ofJsonItems items)
  | .object fields => .document (ofJsonFields fields)

def ofJsonItems : List Json → List Value
  | [] => []
  | v :: vs => ofJson v :: ofJsonItems vs

def ofJsonFields : List (Named Json) → List (Named Value)
  | [] => []
  | ⟨name, v⟩ :: cs => ⟨name, ofJson v⟩ :: ofJsonFields cs

end

mutual

def toJson : Value → Json
  | .null => .null
  | .bool b => .bool b
  | .int i => .int i.toInt
  | .float x => if x.isFinite then .decimal x else .null
  | .string s => .string s
  | .list items => .array (toJsonItems items)
  | .document columns => .ofFields (toJsonFields columns)
  | .param name => .string ("@" ++ name)

def toJsonItems : List Value → List Json
  | [] => []
  | v :: vs => v.toJson :: toJsonItems vs

def toJsonFields : List (Named Value) → List (Named Json)
  | [] => []
  | ⟨name, v⟩ :: cs => ⟨name, v.toJson⟩ :: toJsonFields cs

end

end RecordQuery.Value
