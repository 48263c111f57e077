import RecordQuery.Condition.Text
import RecordQuery.Statement.Basic

namespace RecordQuery

def Direction.keyword : Direction → String
  | .ascending => "asc"
  | .descending => "desc"

def SortKey.text (s : SortKey) : String := s.name ++ " " ++ s.direction.keyword

namespace Command

def whereText : Option Condition → String
  | none => ""
  | some c => " where " ++ c.text

def sortsText (sorts : List SortKey) : String :=
  if sorts = [] then "" else " order by " ++ Text.commaJoined (sorts.map SortKey.text)

def countText (clause : String) (n : UInt64) : String :=
  if n = 0 then "" else " " ++ clause ++ " " ++ toString n.toNat

def text : Command → String
  | .select q =>
      "select " ++ (if q.fields = [] then "*" else Text.commaJoined q.fields) ++
        " from " ++ q.entity ++ whereText q.condition ++ sortsText q.sorts ++
        countText "skip" q.skip ++ countText "limit" q.limit
  | .delete q =>
      "delete " ++ (if q.fields = [] then "" else Text.commaJoined q.fields ++ " ") ++
        "from " ++ q.entity ++ whereText q.condition
  | .insert r ttl =>
      "insert " ++ r.text ++ (match ttl with | none => "" | some t => " " ++ t.text)
  | .update r => "update " ++ r.text

end Command

end RecordQuery
