import RecordQuery.Limits
import RecordQuery.Text.Blank
import RecordQuery.Text.Quoted
import RecordQuery.Verb

namespace RecordQuery

inductive Fault where
  | unexpectedCharacter (c : Char)
  | unterminatedString
  | unterminatedEscape
  | parameterName
  | decimalLiteral
  | integerRange
  | expected (what found : String)
  | negative (clause : String)
  | duplicate (clause : String)
  | misplacedNot
  | inValues
  | payload
  | ttlOverflow
  | ttlUnit (unit : String)
  | convertParameter
  | literalParameter
  | remark (message : String)
  deriving DecidableEq, Repr

namespace Fault

def message : Fault → String
  | .unexpectedCharacter c => s!"unexpected character '{c}'"
  | .unterminatedString => "unterminated string"
  | .unterminatedEscape => "unterminated escape sequence"
  | .parameterName => "expected parameter name after '@'"
  | .decimalLiteral => "invalid decimal literal"
  | .integerRange => "integer literal out of range"
  | .expected what found => s!"expected {what}, found {found}"
  | .negative clause => s!"{clause} must not be negative"
  | .duplicate clause => s!"duplicate '{clause}' clause"
  | .misplacedNot => "'not' may only precede in, like or between"
  | .inValues => "in expects a list of values"
  | .payload => "expected a JSON object payload"
  | .ttlOverflow => "ttl overflows"
  | .ttlUnit unit => s!"unknown ttl unit '{unit}'"
  | .convertParameter => "convert() requires a literal, not a parameter"
  | .literalParameter => "expected a literal, not a parameter"
  | .remark message => message

end Fault

inductive Target where
  | int64
  | int32
  | uint64
  | double
  | bool
  | string
  | entityArrays
  | recordArray
  | recordObject
  deriving DecidableEq, Repr

namespace Target

def name : Target → String
  | .int64 => "i64"
  | .int32 => "i32"
  | .uint64 => "u64"
  | .double => "f64"
  | .bool => "bool"
  | .string => "string"
  | .entityArrays => "object of entity arrays"
  | .recordArray => "array of records"
  | .recordObject => "record object"

end Target

inductive ConditionFault where
  | inValues
  | betweenBounds
  | emptyAnd
  | emptyOr
  deriving DecidableEq, Repr

namespace ConditionFault

def message : ConditionFault → String
  | .inValues => "in requires a list value"
  | .betweenBounds => "between requires exactly two values"
  | .emptyAnd => "and requires at least one condition"
  | .emptyOr => "or requires at least one condition"

end ConditionFault

inductive Misuse where
  | pendingField
  | secondWhere
  | noWhere
  | notWithoutField
  | comparisonWithoutField
  | directionWithoutSort
  | danglingField
  deriving DecidableEq, Repr

namespace Misuse

def message : Misuse → String
  | .pendingField => "previous field has no comparison"
  | .secondWhere => "where called twice"
  | .noWhere => "and/or requires a preceding where"
  | .notWithoutField => "not requires a field"
  | .comparisonWithoutField => "comparison requires where, and or or"
  | .directionWithoutSort => "asc/desc requires order_by"
  | .danglingField => "last field has no comparison"

end Misuse

inductive QueryError where
  | malformed (fault : Fault) (fragment : String)
  | unknownCommand (fragment : String)
  | missingEntity (verb : Verb)
  | unsupportedOperator (operator : String)
  | unsupportedType (name : String)
  | conversion (value : String) (target : Target)
  | invalidCondition (fault : ConditionFault)
  | misuse (fault : Misuse)
  | parametersRequirePrepare (names : List String)
  | unboundParameters (names : List String)
  | nonUniqueResult (count : Nat)
  | unsupported (message : String)
  | limitExceeded (limit : Limited) (maximum found : Nat)
  deriving DecidableEq, Repr

namespace QueryError

def fragmentLength : Nat := 32

def fragment (cs : List Char) : String :=
  let body := Text.afterBlanks cs
  if fragmentLength < body.length then String.ofList (body.take fragmentLength) ++ "..."
  else String.ofList body

def code : QueryError → String
  | .malformed .. => "Syntax"
  | .unknownCommand .. => "UnrecognizedCommand"
  | .missingEntity .. => "MissingEntity"
  | .unsupportedOperator .. => "UnsupportedOperator"
  | .unsupportedType .. => "UnsupportedType"
  | .conversion .. => "Conversion"
  | .invalidCondition .. => "InvalidCondition"
  | .misuse .. => "Builder"
  | .parametersRequirePrepare .. => "ParametersRequirePrepare"
  | .unboundParameters .. => "UnboundParameters"
  | .nonUniqueResult .. => "NonUniqueResult"
  | .unsupported .. => "Unsupported"
  | .limitExceeded .. => "LimitExceeded"

def message : QueryError → String
  | .malformed fault fragment =>
      "syntax error: " ++ fault.message ++ " near '" ++ fragment ++ "'"
  | .unknownCommand fragment => s!"invalid query: command not recognized in '{fragment}'"
  | .missingEntity verb => verb.keyword ++ " query requires an entity name"
  | .unsupportedOperator operator => s!"operator '{operator}' is not supported"
  | .unsupportedType name => s!"convert() does not support type '{name}'"
  | .conversion value target => s!"cannot convert {value} to " ++ target.name
  | .invalidCondition fault => "invalid condition: " ++ fault.message
  | .misuse fault => "invalid builder usage: " ++ fault.message
  | .parametersRequirePrepare names =>
      "query declares parameters " ++ Text.quoteAll names ++ "; use a prepared statement instead"
  | .unboundParameters names =>
      "Check all parameters before execute: unbound " ++ Text.quoteAll names
  | .nonUniqueResult count => s!"non-unique result: query returned {count} rows"
  | .unsupported message => s!"unsupported operation: {message}"
  | .limitExceeded limit maximum found =>
      limit.name ++ s!" exceeds maximum of {maximum} (got {found})"

def coded (e : QueryError) : String := "[" ++ e.code ++ "] " ++ e.message

end QueryError

abbrev Outcome (α : Type) := Except QueryError α

end RecordQuery
