import RecordQuery.Text.Hidden

namespace RecordQuery.Text

/-- A character by its number, as in `\u{301}`. -/
def numbered (c : Char) : List Char :=
  ['\\', 'u', '{'] ++ Nat.toDigits 16 c.toNat ++ ['}']

/-- A character between double quotes: five controls and marks have an escape of one letter, the
hidden rest is shown by number, and everything else is shown as itself. -/
def shown (c : Char) : List Char :=
  if c = '\x00' then ['\\', '0']
  else if c = '\t' then ['\\', 't']
  else if c = '\r' then ['\\', 'r']
  else if c = '\n' then ['\\', 'n']
  else if c = '"' then ['\\', '"']
  else if c = '\\' then ['\\', '\\']
  else if isHidden c then numbered c
  else [c]

def quoted (cs : List Char) : List Char := '"' :: cs.flatMap shown ++ ['"']

def quote (s : String) : String := String.ofList (quoted s.toList)

theorem toList_quote (s : String) : (quote s).toList = quoted s.toList := by
  simp [quote]

def commaJoined (texts : List String) : String := ", ".intercalate texts

def quoteAll (names : List String) : String := "[" ++ commaJoined (names.map quote) ++ "]"

end RecordQuery.Text
