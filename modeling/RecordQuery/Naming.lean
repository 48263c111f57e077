namespace RecordQuery

structure Naming where
  entity : String → String
  field : String → String → String

namespace Naming

def identity : Naming := ⟨id, fun _ field => field⟩

/-- Names by tables, later entries before earlier ones; other names stay as they are. -/
def ofTables (entities : List (String × String)) (fields : List ((String × String) × String)) :
    Naming where
  entity name := (entities.reverse.lookup name).getD name
  field entity name := (fields.reverse.lookup (entity, name)).getD name

end Naming

end RecordQuery
