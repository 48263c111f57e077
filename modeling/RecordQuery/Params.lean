import RecordQuery.Error
import RecordQuery.Value.Basic

/-!
The parameters of a statement: the names it declares, each once and in the order they first occur,
and the values bound to some of them.
-/

namespace RecordQuery

structure Params where
  names : List String
  bound : List (Named Value)
  deriving DecidableEq, Repr

namespace Params

def empty : Params := ⟨[], []⟩

def contains (p : Params) (name : String) : Bool := p.names.contains name

def declare (p : Params) (name : String) : Params :=
  if p.contains name then p else { p with names := p.names ++ [name] }

def declareAll (p : Params) (names : List String) : Params := names.foldl declare p

/-- Binds a value to a declared name, over an earlier one; other names are left alone. -/
def bind (p : Params) (name : String) (v : Value) : Params :=
  if p.contains name then { p with bound := Named.put name v p.bound } else p

def value? (p : Params) (name : String) : Option Value := Named.find? name p.bound

def unbound (p : Params) : List String := p.names.filter fun name => (p.value? name).isNone

theorem names_bind (p : Params) (name : String) (v : Value) :
    (p.bind name v).names = p.names := by
  unfold bind
  split <;> rfl

theorem value?_bind_self {p : Params} {name : String} (v : Value) (h : p.contains name = true) :
    (p.bind name v).value? name = some v := by
  simp [bind, h, value?, Named.find?_put_self]

theorem value?_bind_of_ne {name other : String} (p : Params) (v : Value) (h : name ≠ other) :
    (p.bind name v).value? other = p.value? other := by
  unfold bind
  split
  · simp [value?, Named.find?_put_of_ne v h]
  · rfl

end Params

namespace Value

mutual

def bind (p : Params) : Value → Outcome Value
  | .param name =>
      match p.value? name with
      | some v => .ok v
      | none => .error (.unboundParameters [name])
  | .list items => (bindItems p items).map .list
  | .document columns => (bindColumns p columns).map .document
  | .null => .ok .null
  | .bool b => .ok (.bool b)
  | .int i => .ok (.int i)
  | .float x => .ok (.float x)
  | .string s => .ok (.string s)

def bindItems (p : Params) : List Value → Outcome (List Value)
  | [] => .ok []
  | v :: vs => do
      let v ← v.bind p
      let vs ← bindItems p vs
      .ok (v :: vs)

def bindColumns (p : Params) : List (Named Value) → Outcome (List (Named Value))
  | [] => .ok []
  | ⟨name, v⟩ :: cs => do
      let v ← v.bind p
      let cs ← bindColumns p cs
      .ok (⟨name, v⟩ :: cs)

end

end Value

end RecordQuery
