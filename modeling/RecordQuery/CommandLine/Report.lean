import RecordQuery.CommandLine.Arguments
import RecordQuery.Json.Reader
import RecordQuery.Prepared
import RecordQuery.Settings.File
import RecordQuery.Statement.Tagged
import RecordQuery.Store.Change
import RecordQuery.Written.Literal

/-!
What a task of the command line reports: the text it prints and the new content of its data file.
The data are loaded before the query is read, and they are written only after all has gone well.
-/

namespace RecordQuery.CommandLine

inductive CommandError where
  | settings (path : String) (e : SettingsError)
  | dataUnreadable (path reason : String)
  | dataMalformed (path : String)
  | bindingShape (raw : String)
  | bindingName (raw : String)
  | query (e : QueryError)
  deriving DecidableEq, Repr

def CommandError.message : CommandError → String
  | .settings path e => e.message path
  | .dataUnreadable path reason => s!"failed to read data file {path}: {reason}"
  | .dataMalformed path => s!"failed to parse data file {path}"
  | .bindingShape raw => "invalid --param '" ++ raw ++ "', expected NAME=VALUE"
  | .bindingName raw => "invalid --param '" ++ raw ++ "', empty name"
  | .query e => e.message

abbrev Reported (α : Type) := Except CommandError α

def ofOutcome {α : Type} (r : Outcome α) : Reported α := r.mapError .query

structure Report where
  output : String
  data : Option String
  deriving DecidableEq, Repr

def printed (format : OutputFormat) (lines : List String) (data : Json) : String :=
  match format with
  | .text => String.join (lines.map (· ++ "\n"))
  | .json => data.pretty ++ "\n"

def queryLines (q : Query) : List String :=
  q.command.text ::
    if q.isParameterized then ["params: " ++ Text.commaJoined q.params.names] else []

/-- The value of a binding: a literal, or else the text itself. -/
def bindingValue (text : String) : Value :=
  match Written.literal text with
  | .ok v => v
  | .error _ => .string text

/-- A parameter's name and its value, as in `name=value`. Blanks around the name and signs `@` in
front of it do not count. -/
def binding (raw : String) : Reported (String × Value) :=
  match splitAtEquals raw with
  | (_, none) => .error (.bindingShape raw)
  | (before, some text) =>
      let name := (Text.trim before.toList).dropWhile (· = '@')
      if name = [] then .error (.bindingName raw)
      else .ok (String.ofList name, bindingValue text)

def absence : String := "No such file or directory (os error 2)"

def loadData (path : String) : FileContent → Reported Store
  | .absent => .error (.dataUnreadable path absence)
  | .unreadable reason => .error (.dataUnreadable path reason)
  | .text content =>
      match Json.read? .inSteps content with
      | none => .error (.dataMalformed path)
      | some data => ofOutcome (Store.ofJson data)

/-- Carries a query out with bindings. A query with parameters, or one that is given bindings, is
prepared first. -/
def carryOut (q : Query) (raws : List String) (store : Store) :
    Reported (List Record × Store) := do
  let binds ← raws.mapM binding
  let (rows, store) :=
    if q.isParameterized || !binds.isEmpty then
      ((Prepared.ofQuery q).bindAll binds).execute Store.backend store
    else Store.backend.execute q.command store
  let rows ← ofOutcome rows
  .ok (rows, store)

def Task.report (format : OutputFormat) (limits : Limits) (data : FileContent) :
    Task → Reported Report
  | .parse query => do
      let q ← ofOutcome (Query.parse limits .identity query)
      .ok ⟨printed format (queryLines q) q.toTagged, none⟩
  | .run query path params writeBack => do
      let store ← loadData path data
      let q ← ofOutcome (Query.parse limits .identity query)
      let (rows, store) ← carryOut q params store
      let rows := rows.map Record.toJson
      .ok ⟨printed format (rows.map Json.compact) (.array rows),
        if writeBack then some store.toJson.pretty else none⟩
  | .config =>
      .ok ⟨match format with
        | .text => limits.text
        | .json => limits.toJson.pretty ++ "\n", none⟩

def Arguments.report (a : Arguments) (settingsPath : String) (settings data : FileContent) :
    Reported Report := do
  let limits ← (Limits.load settings).mapError (.settings settingsPath)
  a.task.report a.format limits data

def errorText (message : String) : String := "error: " ++ message ++ "\n"

end RecordQuery.CommandLine
