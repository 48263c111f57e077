namespace RecordQuery

inductive Verb where
  | select
  | delete
  | insert
  | update
  deriving DecidableEq, Repr

namespace Verb

def keyword : Verb → String
  | .select => "select"
  | .delete => "delete"
  | .insert => "insert"
  | .update => "update"

def all : List Verb := [.select, .delete, .insert, .update]

def ofKeyword? (word : String) : Option Verb := all.find? fun v => v.keyword = word

theorem ofKeyword?_keyword (v : Verb) : ofKeyword? v.keyword = some v := by
  cases v <;> decide

end Verb

end RecordQuery
