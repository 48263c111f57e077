import RecordQuery.Number.Decimal
import RecordQuery.Read
import RecordQuery.Text.Letter
import RecordQuery.Text.Numeral
import RecordQuery.Token.Basic

namespace RecordQuery.Token

def isNameChar (c : Char) : Bool := Text.isLetter c || Text.isNumeral c || c = '_'

def isWordStart (c : Char) : Bool := Text.isLetter c || c = '_'

/-- A character of a word after its first; points divide the segments of a name. -/
def isWordChar (c : Char) : Bool := isNameChar c || c = '.'

def unescape (c : Char) : Char :=
  if c = 'n' then '\n' else if c = 't' then '\t' else if c = 'r' then '\r' else c

def scanString (quote : Char) : (cs : List Char) → Except Fault (Read Char (List Char) cs)
  | [] => .error .unterminatedString
  | c :: cs =>
      if c = quote then .ok (.one [] c cs)
      else if c = '\\' then
        match cs with
        | [] => .error .unterminatedEscape
        | d :: cs =>
            (scanString quote cs).map fun r =>
              (r.map (unescape d :: ·)).within (Nat.le_trans (Nat.le_succ _) (Nat.le_succ _))
      else (scanString quote cs).map fun r => (r.map (c :: ·)).within (Nat.le_succ _)

def fraction : List Char → List Char
  | '.' :: cs =>
      let ds := cs.takeWhile Char.isDigit
      if ds = [] then [] else '.' :: ds
  | _ => []

def exponentDigits : List Char → List Char
  | [] => []
  | c :: cs =>
      if c = '+' ∨ c = '-' then
        let ds := cs.takeWhile Char.isDigit
        if ds = [] then [] else c :: ds
      else (c :: cs).takeWhile Char.isDigit

def exponent : List Char → List Char
  | [] => []
  | c :: cs =>
      if c = 'e' ∨ c = 'E' then
        let ds := exponentDigits cs
        if ds = [] then [] else c :: ds
      else []

/-- The numeral after a first digit or sign, and whether it is a decimal. -/
def numeralTail (cs : List Char) : List Char × Bool :=
  let whole := cs.takeWhile Char.isDigit
  let f := fraction (cs.drop whole.length)
  let e := exponent (cs.drop (whole.length + f.length))
  (whole ++ f ++ e, f ≠ [] || e ≠ [])

def numeralValue (literal : List Char) (isDecimal : Bool) : Except Fault Lexeme :=
  if isDecimal then
    match Double.read? literal with
    | some x => .ok (.decimal x)
    | none => .error .decimalLiteral
  else
    match Number.readInt64? literal with
    | some i => .ok (.int i)
    | none => .error .integerRange

def mark? (c : Char) : Option Mark :=
  match c with
  | '(' => some .openParen
  | ')' => some .closeParen
  | '{' => some .openBrace
  | '}' => some .closeBrace
  | '[' => some .openBracket
  | ']' => some .closeBracket
  | ',' => some .comma
  | ':' => some .colon
  | '=' => some .equal
  | '*' => some .star
  | _ => none

def startsNumeral (c : Char) (cs : List Char) : Bool :=
  c.isDigit || ((c = '-' || c = '+') && (cs.head?.map Char.isDigit).getD false)

def dropTail {α : Type} (value : α) (c : Char) (cs : List Char) (taken : Nat) :
    Read Char α (c :: cs) :=
  ⟨value, cs.drop taken, by simp only [List.length_drop, List.length_cons]; omega⟩

def scanOrder (plain orEqual : Mark) (c : Char) (cs : List Char) : Read Char Lexeme (c :: cs) :=
  if cs.head? = some '=' then dropTail (.mark orEqual) c cs 1 else .one (.mark plain) c cs

def scan (c : Char) (cs : List Char) : Except Fault (Read Char Lexeme (c :: cs)) :=
  if c = '"' ∨ c = '\'' then
    (scanString c cs).map fun r =>
      (r.map fun s => Lexeme.string (String.ofList s)).within (Nat.le_succ _)
  else if c = '@' then
    let name := cs.takeWhile isNameChar
    if name = [] then .error .parameterName
    else .ok (dropTail (.param (String.ofList name)) c cs name.length)
  else if startsNumeral c cs then
    let numeral := numeralTail cs
    (numeralValue (c :: numeral.1) numeral.2).map fun l => dropTail l c cs numeral.1.length
  else if isWordStart c then
    let tail := cs.takeWhile isWordChar
    .ok (dropTail (.word (String.ofList (c :: tail))) c cs tail.length)
  else if c = '>' then .ok (scanOrder .greater .greaterEqual c cs)
  else if c = '<' then .ok (scanOrder .less .lessEqual c cs)
  else
    match mark? c with
    | some m => .ok (.one (.mark m) c cs)
    | none => .error (.unexpectedCharacter c)

def ofChars (cs : List Char) : Outcome (List Token) :=
  match _h : Text.afterBlanks cs with
  | [] => .ok []
  | c :: rest =>
      match scan c rest with
      | .error fault => .error (.malformed fault (QueryError.fragment (c :: rest)))
      | .ok r => (ofChars r.rest).map fun ts => ⟨r.value, c :: rest⟩ :: ts
termination_by cs.length
decreasing_by
  have hle := Text.length_afterBlanks_le cs
  have hlt := r.shorter
  rw [_h] at hle
  omega

end RecordQuery.Token
