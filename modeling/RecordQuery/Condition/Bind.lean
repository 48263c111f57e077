import RecordQuery.Condition.Basic
import RecordQuery.Params

namespace RecordQuery.Condition

/-- What an `in` takes once its parameter is bound: a single value counts as a list of one. -/
def asOperand : Comparison → Value → Value
  | .isIn, .list items => .list items
  | .isIn, v => .list [v]
  | _, v => v

mutual

def bind (p : Params) : Condition → Outcome Condition
  | .compare c column => do
      let v ← column.value.bind p
      ofColumn c ⟨column.name, asOperand c v⟩
  | .group c children => (bindChildren p children).map (.group c)
  | .not inner => (inner.bind p).map .not

def bindChildren (p : Params) : List Condition → Outcome (List Condition)
  | [] => .ok []
  | c :: cs => do
      let c ← c.bind p
      let cs ← bindChildren p cs
      .ok (c :: cs)

end

end RecordQuery.Condition
