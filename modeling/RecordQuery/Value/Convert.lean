import RecordQuery.Error
import RecordQuery.Value.Text

namespace RecordQuery

inductive ScalarType where
  | int
  | float
  | bool
  | string
  deriving DecidableEq, Repr

namespace ScalarType

def spellings : List (String × ScalarType) := [
    ("int", .int), ("integer", .int), ("long", .int), ("short", .int), ("byte", .int),
    ("biginteger", .int), ("float", .float), ("double", .float), ("bigdecimal", .float),
    ("number", .float), ("bool", .bool), ("boolean", .bool), ("string", .string),
    ("char", .string), ("character", .string)]

def lastSegment (name : List Char) : List Char :=
  (name.reverse.takeWhile (· ≠ '.')).reverse

/-- The type of a name, simple or dotted; the last segment decides, in any case of letters. -/
def ofName (name : String) : Outcome ScalarType :=
  match spellings.lookup (String.ofList ((lastSegment name.toList).map Char.toLower)) with
  | some t => .ok t
  | none => .error (.unsupportedType name)

end ScalarType

namespace Value

def conversion {α : Type} (v : Value) (target : Target) : Outcome α :=
  .error (.conversion v.text target)

def orConversion {α : Type} (v : Value) (target : Target) : Option α → Outcome α
  | some a => .ok a
  | none => v.conversion target

/-- Whole floating point numbers below this magnitude are read as integers. -/
def wholeLimit : Nat := 9200000000000000000

def toInt64 (v : Value) : Outcome Int64 :=
  match v with
  | .int i => .ok i
  | .float x =>
      match x.toInt? with
      | some i => if i.natAbs < wholeLimit then .ok (Int64.ofInt i) else v.conversion .int64
      | none => v.conversion .int64
  | .string s => v.orConversion .int64 (Number.readInt64? (Text.trim s.toList))
  | _ => v.conversion .int64

def toInt32 (v : Value) : Outcome Int32 := do
  let i ← v.toInt64
  if -0x80000000 ≤ i.toInt ∧ i.toInt < 0x80000000 then .ok (Int32.ofInt i.toInt) else v.conversion .int32

def toUInt64 (v : Value) : Outcome UInt64 := do
  let i ← v.toInt64
  if 0 ≤ i.toInt then .ok (UInt64.ofNat i.toInt.toNat) else v.conversion .uint64

def toDouble (v : Value) : Outcome Double :=
  match v with
  | .float x => .ok x
  | .int i => .ok (.ofInt i.toInt)
  | .string s => v.orConversion .double (Double.read? (Text.trim s.toList))
  | _ => v.conversion .double

def sameLetters (s t : String) : Bool := s.toList.map Char.toLower = t.toList.map Char.toLower

def toBool (v : Value) : Outcome Bool :=
  match v with
  | .bool b => .ok b
  | .string s =>
      if sameLetters s "true" then .ok true
      else if sameLetters s "false" then .ok false
      else v.conversion .bool
  | _ => v.conversion .bool

def toText (v : Value) : Outcome String :=
  match v with
  | .string s => .ok s
  | .int _ | .float _ | .bool _ => .ok v.text
  | _ => v.conversion .string

def toList {α : Type} (read : Value → Outcome α) (v : Value) : Outcome (List α) :=
  match v with
  | .list items => items.mapM read
  | single => (read single).map fun a => [a]

def toOption {α : Type} (read : Value → Outcome α) (v : Value) : Outcome (Option α) :=
  match v with
  | .null => .ok none
  | other => (read other).map some

def convertScalar (t : ScalarType) (v : Value) : Outcome Value :=
  match t with
  | .int => v.toInt64.map .int
  | .float => v.toDouble.map .float
  | .bool => v.toBool.map .bool
  | .string => v.toText.map .string

mutual

def convert (t : ScalarType) : Value → Outcome Value
  | .list items => (convertItems t items).map .list
  | .null => Value.null.convertScalar t
  | .bool b => (Value.bool b).convertScalar t
  | .int i => (Value.int i).convertScalar t
  | .float x => (Value.float x).convertScalar t
  | .string s => (Value.string s).convertScalar t
  | .document columns => (Value.document columns).convertScalar t
  | .param name => (Value.param name).convertScalar t

def convertItems (t : ScalarType) : List Value → Outcome (List Value)
  | [] => .ok []
  | v :: vs => do
      let v ← v.convert t
      let vs ← convertItems t vs
      .ok (v :: vs)

end

end Value

end RecordQuery
