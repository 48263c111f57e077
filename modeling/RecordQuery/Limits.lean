namespace RecordQuery

structure Limits where
  /-- How many read queries the cache keeps; none when zero. -/
  cacheCapacity : Nat := 1024
  /-- How deep `not` and groups may nest in a `where` clause. -/
  conditionDepth : Nat := 64
  inList : Nat := 4096
  /-- How deep brackets, braces and `convert` may nest in a literal. -/
  literalDepth : Nat := 64
  deriving DecidableEq, Repr

inductive Limited where
  | conditionDepth
  | inList
  | literalDepth
  deriving DecidableEq, Repr

namespace Limited

def name : Limited → String
  | .conditionDepth => "condition depth"
  | .inList => "in list"
  | .literalDepth => "literal depth"

end Limited

def Limits.of (limits : Limits) : Limited → Nat
  | .conditionDepth => limits.conditionDepth
  | .inList => limits.inList
  | .literalDepth => limits.literalDepth

end RecordQuery
