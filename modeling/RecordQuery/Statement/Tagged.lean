import RecordQuery.Query

/-!
Queries as JSON data in which every value, condition and statement names its kind. Nothing is lost
but the floating point numbers that are not finite, and fields stand in the order of the data.
-/

namespace RecordQuery

def Json.ofPairs (fields : List (String × Json)) : Json :=
  .object (fields.map fun f => ⟨f.1, f.2⟩)

namespace Value

def tagged (tag : String) (content : Json) : Json := .ofPairs [("t", .string tag), ("v", content)]

mutual

def toTagged : Value → Json
  | .null => .ofPairs [("t", .string "Null")]
  | .bool b => tagged "Bool" (.bool b)
  | .int i => tagged "Int" (.int i.toInt)
  | .float x => tagged "Float" (.decimal x)
  | .string s => tagged "String" (.string s)
  | .list items => tagged "List" (.array (taggedItems items))
  | .document columns => tagged "Document" (.array (taggedColumns columns))
  | .param name => tagged "Param" (.string name)

def taggedItems : List Value → List Json
  | [] => []
  | v :: vs => v.toTagged :: taggedItems vs

def taggedColumns : List (Named Value) → List Json
  | [] => []
  | ⟨name, v⟩ :: cs => .ofPairs [("name", .string name), ("value", v.toTagged)] :: taggedColumns cs

end

end Value

def taggedColumn (c : Column) : Json :=
  .ofPairs [("name", .string c.name), ("value", c.value.toTagged)]

namespace ConditionKind

def tag : ConditionKind → String
  | .comparison .equal => "EQUALS"
  | .comparison .greater => "GREATER_THAN"
  | .comparison .greaterEqual => "GREATER_EQUALS_THAN"
  | .comparison .less => "LESSER_THAN"
  | .comparison .lessEqual => "LESSER_EQUALS_THAN"
  | .comparison .isIn => "IN"
  | .comparison .like => "LIKE"
  | .comparison .between => "BETWEEN"
  | .group .and => "AND"
  | .group .or => "OR"
  | .negation => "NOT"

end ConditionKind

namespace Condition

def tagged (kind : ConditionKind) (parts : Json) : Json :=
  .ofPairs [("kind", .string kind.tag), ("of", parts)]

mutual

def toTagged : Condition → Json
  | .compare c column => tagged (.comparison c) (taggedColumn column)
  | .group c children => tagged (.group c) (.array (taggedChildren children))
  | .not inner => tagged .negation inner.toTagged

def taggedChildren : List Condition → List Json
  | [] => []
  | c :: cs => c.toTagged :: taggedChildren cs

end

def someTagged : Option Condition → Json
  | none => .null
  | some c => c.toTagged

end Condition

def Record.toTagged (r : Record) : Json :=
  .ofPairs [("name", .string r.entity), ("columns", .array (r.columns.map taggedColumn))]

def Ttl.toTagged (t : Ttl) : Json :=
  .ofPairs [("secs", .int (t.nanoseconds / TimeUnit.nanoseconds .second : Nat)),
    ("nanos", .int (t.nanoseconds % TimeUnit.nanoseconds .second : Nat))]

def SortKey.toTagged (s : SortKey) : Json :=
  .ofPairs [("name", .string s.name), ("order", .string s.direction.keyword)]

namespace Command

def names (fields : List String) : Json := .array (fields.map Json.string)

def count (n : UInt64) : Json := .int n.toNat

def toTagged (s : Command) : Json :=
  let content := match s with
    | .select q => [("entity", .string q.entity), ("fields", names q.fields),
        ("condition", Condition.someTagged q.condition),
        ("sorts", .array (q.sorts.map SortKey.toTagged)), ("limit", count q.limit),
        ("skip", count q.skip)]
    | .delete q => [("entity", .string q.entity), ("fields", names q.fields),
        ("condition", Condition.someTagged q.condition)]
    | .insert r ttl => [("entity", r.toTagged), ("ttl", (ttl.map Ttl.toTagged).getD .null)]
    | .update r => [("entity", r.toTagged)]
  .ofPairs (("type", .string s.verb.keyword) :: content)

end Command

def Query.toTagged (q : Query) : Json :=
  .ofPairs [("statement", q.command.toTagged), ("params", Command.names q.params.names)]

end RecordQuery
