import RecordQuery.Number.Shortest
import RecordQuery.Text.Quoted
import RecordQuery.Value.Basic

namespace RecordQuery.Value

/-- Numbers are written positionally from 10⁻⁴ on and below 10¹⁶, whole ones with `.0`. -/
def floatLayout : Double.Layout := ⟨.upward, some (-3), some 16, true, false⟩

mutual

def text : Value → String
  | .null => "null"
  | .bool b => if b then "true" else "false"
  | .int i => String.ofList (Number.writeInt64 i)
  | .float x => String.ofList (x.text floatLayout)
  | .string s => Text.quote s
  | .list items => "[" ++ Text.commaJoined (itemTexts items) ++ "]"
  | .document columns => "\x7b" ++ Text.commaJoined (columnTexts columns) ++ "\x7d"
  | .param name => "@" ++ name

def itemTexts : List Value → List String
  | [] => []
  | v :: vs => v.text :: itemTexts vs

def columnTexts : List (Named Value) → List String
  | [] => []
  | ⟨name, v⟩ :: cs => (Text.quote name ++ ": " ++ v.text) :: columnTexts cs

end

theorem itemTexts_eq_map (vs : List Value) : itemTexts vs = vs.map text := by
  induction vs with
  | nil => rfl
  | cons v vs ih => simp [itemTexts, ih]

theorem columnTexts_eq_map (cs : List Column) :
    columnTexts cs = cs.map fun c => Text.quote c.name ++ ": " ++ c.value.text := by
  induction cs with
  | nil => rfl
  | cons c cs ih => simp [columnTexts, ih]

end RecordQuery.Value
