import RecordQuery.Json.Basic
import RecordQuery.Number.Shortest

namespace RecordQuery.Json

/-- Numbers are written positionally from 10⁻⁵ on and below 10¹⁶, whole ones with `.0`. -/
def numberLayout : Double.Layout := ⟨.toEven, some (-4), some 16, true, true⟩

def hexDigit (n : Nat) : Char := Nat.digitChar (n % 16)

def shown (c : Char) : List Char :=
  if c = '"' then ['\\', '"']
  else if c = '\\' then ['\\', '\\']
  else if c = '\x08' then ['\\', 'b']
  else if c = '\x0c' then ['\\', 'f']
  else if c = '\n' then ['\\', 'n']
  else if c = '\r' then ['\\', 'r']
  else if c = '\t' then ['\\', 't']
  else if c.toNat < 0x20 then ['\\', 'u', '0', '0', hexDigit (c.toNat / 16), hexDigit c.toNat]
  else [c]

def stringText (s : String) : String :=
  String.ofList ('"' :: s.toList.flatMap shown ++ ['"'])

def numberText (x : Double) : String :=
  if x.isFinite then String.ofList (x.text numberLayout) else "null"

mutual

def compact : Json → String
  | .null => "null"
  | .bool b => if b then "true" else "false"
  | .int i => String.ofList (Number.writeInt i)
  | .decimal x => numberText x
  | .string s => stringText s
  | .array items => "[" ++ ",".intercalate (compactItems items) ++ "]"
  | .object fields => "\x7b" ++ ",".intercalate (compactFields fields) ++ "\x7d"

def compactItems : List Json → List String
  | [] => []
  | v :: vs => v.compact :: compactItems vs

def compactFields : List (Named Json) → List String
  | [] => []
  | ⟨name, v⟩ :: cs => (stringText name ++ ":" ++ v.compact) :: compactFields cs

end

def newLine (level : Nat) : String := String.ofList ('\n' :: List.replicate (2 * level) ' ')

def spread (level : Nat) (left right : String) (items : List String) : String :=
  if items.isEmpty then left ++ right
  else left ++ newLine (level + 1) ++ ("," ++ newLine (level + 1)).intercalate items ++
    newLine level ++ right

mutual

def prettyAt (level : Nat) : Json → String
  | .array items => spread level "[" "]" (prettyItems (level + 1) items)
  | .object fields => spread level "\x7b" "\x7d" (prettyFields (level + 1) fields)
  | .null => "null"
  | .bool b => if b then "true" else "false"
  | .int i => String.ofList (Number.writeInt i)
  | .decimal x => numberText x
  | .string s => stringText s

def prettyItems (level : Nat) : List Json → List String
  | [] => []
  | v :: vs => v.prettyAt level :: prettyItems level vs

def prettyFields (level : Nat) : List (Named Json) → List String
  | [] => []
  | ⟨name, v⟩ :: cs => (stringText name ++ ": " ++ v.prettyAt level) :: prettyFields level cs

end

def pretty (v : Json) : String := v.prettyAt 0

end RecordQuery.Json
