import RecordQuery.Error
import RecordQuery.Number.Shortest

namespace RecordQuery

inductive Mark where
  | openParen
  | closeParen
  | openBrace
  | closeBrace
  | openBracket
  | closeBracket
  | comma
  | colon
  | equal
  | greater
  | greaterEqual
  | less
  | lessEqual
  | star
  deriving DecidableEq, Repr

def Mark.spelling : Mark → String
  | .openParen => "("
  | .closeParen => ")"
  | .openBrace => "\x7b"
  | .closeBrace => "\x7d"
  | .openBracket => "["
  | .closeBracket => "]"
  | .comma => ","
  | .colon => ":"
  | .equal => "="
  | .greater => ">"
  | .greaterEqual => ">="
  | .less => "<"
  | .lessEqual => "<="
  | .star => "*"

inductive Lexeme where
  | word (name : String)
  | string (s : String)
  | int (i : Int64)
  | decimal (x : Double)
  | param (name : String)
  | mark (m : Mark)
  deriving DecidableEq, Repr

namespace Lexeme

/-- Numbers in messages are written positionally and without a point where they are whole. -/
def numberLayout : Double.Layout := ⟨.upward, none, none, false, false⟩

def describe : Lexeme → String
  | .word name => "'" ++ name ++ "'"
  | .string s => "string " ++ Text.quote s
  | .int i => "number " ++ String.ofList (Number.writeInt64 i)
  | .decimal x => "number " ++ String.ofList (x.text numberLayout)
  | .param name => "parameter @" ++ name
  | .mark m => "'" ++ m.spelling ++ "'"

end Lexeme

structure Token where
  lexeme : Lexeme
  source : List Char
  deriving DecidableEq, Repr

namespace Token

def sourceOf : List Token → List Char
  | [] => []
  | t :: _ => t.source

def describe : List Token → String
  | [] => "end of query"
  | t :: _ => t.lexeme.describe

end Token

def Fault.at (fault : Fault) (ts : List Token) : QueryError :=
  .malformed fault (QueryError.fragment (Token.sourceOf ts))

def unexpected (what : String) (ts : List Token) : QueryError :=
  (Fault.expected what (Token.describe ts)).at ts

end RecordQuery
