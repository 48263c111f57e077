import RecordQuery.Value.Basic

namespace RecordQuery.Value

/-- The order of two numbers, two strings or two truth values; other pairs have none. -/
def compare? : Value → Value → Option Ordering
  | .int a, .int b => some (compare a.toInt b.toInt)
  | .int a, .float b => (Double.ofInt a.toInt).compare? b
  | .float a, .int b => a.compare? (.ofInt b.toInt)
  | .float a, .float b => a.compare? b
  | .string a, .string b => some (compare a b)
  | .bool a, .bool b => some (compare a b)
  | _, _ => none

mutual

/-- Equality of stored values: numbers by value whatever their kind, lists item by item, documents
whatever the order of their columns. -/
def equal : Value → Value → Bool
  | .int a, b => (Value.int a).compare? b = some .eq
  | .float a, b => (Value.float a).compare? b = some .eq
  | .list a, .list b => equalItems a b
  | .document a, .document b => a.length = b.length && columnsWithin a b
  | .null, .null => true
  | .bool a, .bool b => a = b
  | .string a, .string b => a = b
  | .param a, .param b => a = b
  | _, _ => false

def equalItems : List Value → List Value → Bool
  | [], [] => true
  | a :: as, b :: bs => equal a b && equalItems as bs
  | _, _ => false

def columnsWithin : List (Named Value) → List (Named Value) → Bool
  | [], _ => true
  | ⟨name, a⟩ :: as, bs =>
      (match Named.find? name bs with
        | some b => equal a b
        | none => false) && columnsWithin as bs

end

def kindRank : Value → Nat
  | .null => 0
  | .bool _ => 1
  | .int _ => 2
  | .float _ => 2
  | .string _ => 3
  | .list _ => 4
  | .document _ => 5
  | .param _ => 6

mutual

/-- The order of rows: numbers by value, with the total order where one is floating, lists item by
item, and values of different kinds by their kinds. -/
def order : Value → Value → Ordering
  | .int a, .int b => compare a.toInt b.toInt
  | .int a, .float b => (Double.ofInt a.toInt).compareTotal b
  | .float a, .int b => a.compareTotal (.ofInt b.toInt)
  | .float a, .float b => a.compareTotal b
  | .string a, .string b => compare a b
  | .bool a, .bool b => compare a b
  | .list a, .list b => orderItems a b
  | .param a, .param b => compare a b
  | a, b => compare a.kindRank b.kindRank

def orderItems : List Value → List Value → Ordering
  | [], [] => .eq
  | [], _ :: _ => .lt
  | _ :: _, [] => .gt
  | a :: as, b :: bs => (order a b).then (orderItems as bs)

end

def orderAbsentFirst : Option Value → Option Value → Ordering
  | some a, some b => order a b
  | none, some _ => .lt
  | some _, none => .gt
  | none, none => .eq

end RecordQuery.Value
