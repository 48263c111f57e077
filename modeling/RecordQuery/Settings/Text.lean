import RecordQuery.Settings.Basic
import RecordQuery.Settings.Numeral

/-!
Settings as text: lines with a key, `=` and a number, blank lines, and comments after `#`. Every
key is one of the known ones and occurs once; what is not set keeps its usual number.
-/

namespace RecordQuery.Settings

def isGap (c : Char) : Bool := c = ' ' || c = '\t'

def afterGaps (cs : List Char) : List Char := cs.dropWhile isGap

def isPlain (c : Char) : Bool := c = '\t' || (0x20 ≤ c.toNat && c.toNat ≠ 0x7F)

def isKeyChar (c : Char) : Bool := c.isAlphanum || c = '_' || c = '-'

def isNumeralChar (c : Char) : Bool := c.isAlphanum || c = '_' || c = '+' || c = '-'

/-- The lines of a text. A return before the end of a line belongs to that end. -/
def lines : List Char → List (List Char)
  | [] => [[]]
  | '\r' :: '\n' :: cs => [] :: lines cs
  | '\n' :: cs => [] :: lines cs
  | c :: cs =>
      match lines cs with
      | [] => [[c]]
      | l :: ls => (c :: l) :: ls

def escaped? (c : Char) : Option Char :=
  match c with
  | '"' => some '"'
  | '\\' => some '\\'
  | 'b' => some '\x08'
  | 'f' => some '\x0c'
  | 'n' => some '\n'
  | 'r' => some '\r'
  | 't' => some '\t'
  | _ => none

def numbered? (digits : List Char) : Option Char :=
  (Number.ofHexDigits? digits).bind Number.character?

def push (c : Char) (r : List Char × List Char) : List Char × List Char := (c :: r.1, r.2)

def readQuoted? : List Char → Option (List Char × List Char)
  | [] => none
  | '"' :: cs => some ([], cs)
  | '\\' :: 'u' :: a :: b :: c :: d :: cs =>
      (numbered? [a, b, c, d]).bind fun x => (readQuoted? cs).map (push x)
  | '\\' :: 'U' :: a :: b :: c :: d :: e :: f :: g :: h :: cs =>
      (numbered? [a, b, c, d, e, f, g, h]).bind fun x => (readQuoted? cs).map (push x)
  | '\\' :: c :: cs => (escaped? c).bind fun x => (readQuoted? cs).map (push x)
  | c :: cs => if isPlain c then (readQuoted? cs).map (push c) else none

def readLiteral? : List Char → Option (List Char × List Char)
  | [] => none
  | '\x27' :: cs => some ([], cs)
  | c :: cs => if isPlain c then (readLiteral? cs).map (push c) else none

def readKey? : List Char → Option (List Char × List Char)
  | '"' :: cs => readQuoted? cs
  | '\x27' :: cs => readLiteral? cs
  | cs => some (cs.takeWhile isKeyChar, cs.dropWhile isKeyChar)

def isRemark : List Char → Bool
  | [] => true
  | '#' :: cs => cs.all isPlain
  | _ => false

def readNumber? (cs : List Char) : Option Nat :=
  match afterGaps cs with
  | '=' :: cs =>
      let cs := afterGaps cs
      if isRemark (afterGaps (cs.dropWhile isNumeralChar)) then
        number? (cs.takeWhile isNumeralChar)
      else none
  | _ => none

def readSetting? (cs : List Char) : Option (Setting × Nat) := do
  let (key, rest) ← readKey? cs
  let setting ← Setting.ofKey? (String.ofList key)
  let n ← readNumber? rest
  some (setting, n)

def readLine? (line : List Char) : Option (List (Setting × Nat)) :=
  let cs := afterGaps line
  if isRemark cs then some [] else (readSetting? cs).map ([·])

def afterMark : List Char → List Char
  | '\ufeff' :: cs => cs
  | cs => cs

def readEntries? (cs : List Char) : Option (List (Setting × Nat)) :=
  ((lines (afterMark cs)).mapM readLine?).map List.flatten

end RecordQuery.Settings

namespace RecordQuery.Limits

def read? (text : String) : Option Limits :=
  match Settings.readEntries? text.toList with
  | none => none
  | some entries =>
      if (entries.map Prod.fst).Nodup then some (ofSettings entries) else none

def text (limits : Limits) : String :=
  String.join (Setting.all.map fun s => s.key ++ " = " ++ toString (s.get limits) ++ "\n")

end RecordQuery.Limits
