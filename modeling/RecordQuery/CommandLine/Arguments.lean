namespace RecordQuery.CommandLine

inductive OutputFormat where
  | text
  | json
  deriving DecidableEq, Repr

def OutputFormat.ofName? (name : String) : Option OutputFormat :=
  if name = "text" then some .text else if name = "json" then some .json else none

inductive Task where
  | parse (query : String)
  | run (query dataPath : String) (params : List String) (writeBack : Bool)
  | config
  deriving DecidableEq, Repr

def Task.dataPath? : Task → Option String
  | .run _ path _ _ => some path
  | _ => none

structure Arguments where
  settingsPath : Option String
  format : OutputFormat
  task : Task
  deriving DecidableEq, Repr

inductive UsageError where
  | unknownOption (option : String)
  | missingValue (option : String)
  | unknownFormat (name : String)
  | unknownTask (name : String)
  | missingTask
  | missingQuery
  | missingData
  | surplus (word : String)
  deriving DecidableEq, Repr

def UsageError.message : UsageError → String
  | .unknownOption option => s!"unknown option {option}"
  | .missingValue option => s!"option {option} needs a value"
  | .unknownFormat name => s!"unknown format {name}, expected text or json"
  | .unknownTask name => s!"unknown task {name}, expected parse, run or config"
  | .missingTask => "expected a task: parse, run or config"
  | .missingQuery => "expected a query"
  | .missingData => "expected a data file after --data"
  | .surplus word => s!"unexpected argument {word}"

def splitAtEquals (s : String) : String × Option String :=
  let before := s.toList.takeWhile (· ≠ '=')
  match s.toList.drop before.length with
  | [] => (s, none)
  | _ :: rest => (String.ofList before, some (String.ofList rest))

structure Given where
  settings : Option String := none
  format : OutputFormat := .text
  data : Option String := none
  params : List String := []
  writeBack : Bool := false
  words : List String := []
  deriving DecidableEq, Repr

namespace Given

def valued : List String := ["--config", "--log", "--format", "--data", "--param"]

def set (g : Given) (option value : String) : Except UsageError Given :=
  match option with
  | "--config" => .ok { g with settings := some value }
  | "--log" => .ok g
  | "--format" =>
      match OutputFormat.ofName? value with
      | some format => .ok { g with format := format }
      | none => .error (.unknownFormat value)
  | "--data" => .ok { g with data := some value }
  | "--param" => .ok { g with params := g.params ++ [value] }
  | other => .error (.unknownOption other)

def ofList (g : Given) : List String → Except UsageError Given
  | [] => .ok g
  | arg :: args =>
      if arg = "--" then .ok { g with words := g.words ++ args }
      else if arg = "--write-back" then ofList { g with writeBack := true } args
      else if arg.startsWith "-" && arg ≠ "-" then
        match splitAtEquals arg, args with
        | (option, some value), args => do ofList (← g.set option value) args
        | (option, none), [] =>
            .error (if option ∈ valued then .missingValue option else .unknownOption option)
        | (option, none), value :: args => do ofList (← g.set option value) args
      else ofList { g with words := g.words ++ [arg] } args

def query : List String → Except UsageError String
  | [] => .error .missingQuery
  | [query] => .ok query
  | _ :: word :: _ => .error (.surplus word)

def task (g : Given) : Except UsageError Task :=
  match g.words with
  | [] => .error .missingTask
  | "parse" :: rest => (query rest).map .parse
  | "run" :: rest => do
      let query ← query rest
      match g.data with
      | none => .error .missingData
      | some path => .ok (.run query path g.params g.writeBack)
  | ["config"] => .ok .config
  | "config" :: word :: _ => .error (.surplus word)
  | word :: _ => .error (.unknownTask word)

end Given

def Arguments.ofList (args : List String) : Except UsageError Arguments := do
  let given ← Given.ofList {} args
  let task ← given.task
  .ok ⟨given.settings, given.format, task⟩

end RecordQuery.CommandLine
