import RecordQuery.CommandLine.Report

namespace RecordQuery.CommandLine

def find (path : String) : IO FileContent := do
  try
    return .text (← IO.FS.readFile path)
  catch
    | .noFileOrDirectory .. => return .absent
    | e => return .unreadable (toString e)

/-- Where the settings are when no argument names them: only an absolute base counts. -/
def usualSettingsPath : IO (Option String) := do
  let base := (← IO.getEnv "XDG_CONFIG_HOME").filter (·.startsWith "/")
  let home := (← IO.getEnv "HOME").filter (· ≠ "")
  return (base <|> home.map (· ++ "/.config")).map (· ++ "/quill/config.toml")

def run (a : Arguments) : IO UInt32 := do
  let settingsPath ← match a.settingsPath with
    | some path => pure (some path)
    | none => usualSettingsPath
  let settings ← match settingsPath with
    | some path => find path
    | none => pure .absent
  let data ← match a.task.dataPath? with
    | some path => find path
    | none => pure .absent
  match a.report (settingsPath.getD "") settings data with
  | .error e =>
      (← IO.getStderr).putStr (errorText e.message)
      return 1
  | .ok report =>
      match a.task.dataPath?, report.data with
      | some path, some content => IO.FS.writeFile path content
      | _, _ => pure ()
      (← IO.getStdout).putStr report.output
      return 0

end RecordQuery.CommandLine

open RecordQuery.CommandLine in
def main (args : List String) : IO UInt32 := do
  match Arguments.ofList args with
  | .error e =>
      (← IO.getStderr).putStr (errorText e.message)
      return 2
  | .ok a =>
      try
        run a
      catch e =>
        (← IO.getStderr).putStr (errorText (toString e))
        return 1
