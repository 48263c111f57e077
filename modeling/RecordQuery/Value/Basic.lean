import RecordQuery.Named
import RecordQuery.Number.Double

namespace RecordQuery

inductive Value where
  | null
  | bool (b : Bool)
  | int (i : Int64)
  | float (x : Double)
  | string (s : String)
  | list (items : List Value)
  | document (columns : List (Named Value))
  | param (name : String)
  deriving Repr

abbrev Column := Named Value

namespace Value

instance : Inhabited Value := ⟨.null⟩

mutual

def decEq : (a b : Value) → Decidable (a = b)
  | .null, .null => isTrue rfl
  | .bool a, .bool b => decidable_of_iff (a = b) (by simp)
  | .int a, .int b => decidable_of_iff (a = b) (by simp)
  | .float a, .float b => decidable_of_iff (a = b) (by simp)
  | .string a, .string b => decidable_of_iff (a = b) (by simp)
  | .list a, .list b =>
      have := decEqItems a b
      decidable_of_iff (a = b) (by simp)
  | .document a, .document b =>
      have := decEqColumns a b
      decidable_of_iff (a = b) (by simp)
  | .param a, .param b => decidable_of_iff (a = b) (by simp)
  | .null, .bool _ | .null, .int _ | .null, .float _ | .null, .string _ | .null, .list _
  | .null, .document _ | .null, .param _ => isFalse (by simp)
  | .bool _, .null | .bool _, .int _ | .bool _, .float _ | .bool _, .string _ | .bool _, .list _
  | .bool _, .document _ | .bool _, .param _ => isFalse (by simp)
  | .int _, .null | .int _, .bool _ | .int _, .float _ | .int _, .string _ | .int _, .list _
  | .int _, .document _ | .int _, .param _ => isFalse (by simp)
  | .float _, .null | .float _, .bool _ | .float _, .int _ | .float _, .string _
  | .float _, .list _ | .float _, .document _ | .float _, .param _ => isFalse (by simp)
  | .string _, .null | .string _, .bool _ | .string _, .int _ | .string _, .float _
  | .string _, .list _ | .string _, .document _ | .string _, .param _ => isFalse (by simp)
  | .list _, .null | .list _, .bool _ | .list _, .int _ | .list _, .float _ | .list _, .string _
  | .list _, .document _ | .list _, .param _ => isFalse (by simp)
  | .document _, .null | .document _, .bool _ | .document _, .int _ | .document _, .float _
  | .document _, .string _ | .document _, .list _ | .document _, .param _ => isFalse (by simp)
  | .param _, .null | .param _, .bool _ | .param _, .int _ | .param _, .float _
  | .param _, .string _ | .param _, .list _ | .param _, .document _ => isFalse (by simp)

def decEqItems : (as bs : List Value) → Decidable (as = bs)
  | [], [] => isTrue rfl
  | [], _ :: _ => isFalse (by simp)
  | _ :: _, [] => isFalse (by simp)
  | a :: as, b :: bs =>
      have := decEq a b
      have := decEqItems as bs
      decidable_of_iff (a = b ∧ as = bs) (by simp)

def decEqColumns : (as bs : List (Named Value)) → Decidable (as = bs)
  | [], [] => isTrue rfl
  | [], _ :: _ => isFalse (by simp)
  | _ :: _, [] => isFalse (by simp)
  | ⟨n, a⟩ :: as, ⟨m, b⟩ :: bs =>
      have := decEq a b
      have := decEqColumns as bs
      decidable_of_iff ((n = m ∧ a = b) ∧ as = bs) (by simp)

end

instance : DecidableEq Value := decEq

def isParam : Value → Bool
  | .param _ => true
  | _ => false

def kindName : Value → String
  | .null => "null"
  | .bool _ => "bool"
  | .int _ => "int"
  | .float _ => "float"
  | .string _ => "string"
  | .list _ => "list"
  | .document _ => "document"
  | .param _ => "param"

mutual

def params : Value → List String
  | .param name => [name]
  | .list items => itemParams items
  | .document columns => columnParams columns
  | .null | .bool _ | .int _ | .float _ | .string _ => []

def itemParams : List Value → List String
  | [] => []
  | v :: vs => v.params ++ itemParams vs

def columnParams : List (Named Value) → List String
  | [] => []
  | ⟨_, v⟩ :: cs => v.params ++ columnParams cs

end

theorem itemParams_eq_flatMap (vs : List Value) : itemParams vs = vs.flatMap params := by
  induction vs with
  | nil => rfl
  | cons v vs ih => simp [itemParams, ih]

theorem columnParams_eq_flatMap (cs : List Column) :
    columnParams cs = cs.flatMap fun c => c.value.params := by
  induction cs with
  | nil => rfl
  | cons c cs ih => simp [columnParams, ih]

mutual

/-- Equality with the floating point numbers compared by value: zeros are equal, a NaN equals
nothing. -/
def same : Value → Value → Bool
  | .null, .null => true
  | .bool a, .bool b => a = b
  | .int a, .int b => a = b
  | .float a, .float b => a.same b
  | .string a, .string b => a = b
  | .list a, .list b => sameItems a b
  | .document a, .document b => sameColumns a b
  | .param a, .param b => a = b
  | _, _ => false

def sameItems : List Value → List Value → Bool
  | [], [] => true
  | a :: as, b :: bs => same a b && sameItems as bs
  | _, _ => false

def sameColumns : List (Named Value) → List (Named Value) → Bool
  | [], [] => true
  | ⟨n, a⟩ :: as, ⟨m, b⟩ :: bs => n = m && same a b && sameColumns as bs
  | _, _ => false

end

end Value

end RecordQuery
