import RecordQuery.Settings.Text

namespace RecordQuery

inductive FileContent where
  | absent
  | unreadable (reason : String)
  | text (content : String)
  deriving DecidableEq, Repr

inductive SettingsError where
  | unreadable (reason : String)
  | malformed
  deriving DecidableEq, Repr

def SettingsError.message (path : String) : SettingsError → String
  | .unreadable reason => s!"failed to read config {path}: {reason}"
  | .malformed => s!"failed to parse config {path}"

def Limits.load : FileContent → Except SettingsError Limits
  | .absent => .ok {}
  | .unreadable reason => .error (.unreadable reason)
  | .text content =>
      match Limits.read? content with
      | some limits => .ok limits
      | none => .error .malformed

end RecordQuery
