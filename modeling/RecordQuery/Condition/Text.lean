import RecordQuery.Condition.Basic
import RecordQuery.Value.Text

namespace RecordQuery.Condition

def comparisonText (c : Comparison) (column : Column) : String :=
  match c, column.value with
  | .between, .list [low, high] =>
      column.name ++ " between " ++ low.text ++ " and " ++ high.text
  | c, v => column.name ++ " " ++ c.symbol ++ " " ++ v.text

mutual

def text : Condition → String
  | .compare c column => comparisonText c column
  | .group c children =>
      "(" ++ (" " ++ c.symbol ++ " ").intercalate (childTexts children) ++ ")"
  | .not inner => "not " ++ inner.text

def childTexts : List Condition → List String
  | [] => []
  | c :: cs => c.text :: childTexts cs

end

theorem childTexts_eq_map (cs : List Condition) : childTexts cs = cs.map text := by
  induction cs with
  | nil => rfl
  | cons c cs ih => simp [childTexts, ih]

end RecordQuery.Condition
