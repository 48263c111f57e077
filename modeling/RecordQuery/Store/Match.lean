import RecordQuery.Condition.Basic
import RecordQuery.Record
import RecordQuery.Value.Order

namespace RecordQuery

namespace Record

def segments (path : String) : List String := (path.toList.splitOn '.').map String.ofList

def descend (v : Value) : List String → Option Value
  | [] => some v
  | name :: names =>
      match v with
      | .document columns =>
          match Named.find? name columns with
          | some inner => descend inner names
          | none => none
      | _ => none

/-- The value of a field: the column of its name, else what its dotted parts lead to. -/
def lookup (r : Record) (path : String) : Option Value :=
  match r.find? path with
  | some v => some v
  | none => descend (.document r.columns) (segments path)

/-- The listed fields that a record has; all columns when none is listed. -/
def project (r : Record) (fields : List String) : Record :=
  if fields = [] then r
  else { r with columns := fields.filterMap fun field => (r.lookup field).map (⟨field, ·⟩) }

end Record

namespace Pattern

/-- For each place, whether it or a place before it is marked. -/
def reached : Bool → List Bool → List Bool
  | _, [] => []
  | seen, m :: ms => (seen || m) :: reached (seen || m) ms

/-- Which front parts of a text a pattern matches once a character is added to it: `%` takes any
run of characters, `_` one of them, any other character itself. -/
def advance (text : List Char) (matched : List Bool) (p : Char) : List Bool :=
  if p = '%' then reached false matched
  else false :: matched.zipWith (fun m c => m && (p = '_' || p = c)) text

def matched (pattern text : List Char) : List Bool :=
  pattern.foldl (advance text) (true :: List.replicate text.length false)

def matchesText (pattern text : String) : Bool :=
  (matched pattern.toList text.toList).getLast?.getD false

end Pattern

namespace Comparison

def isAtLeast : Option Ordering → Bool
  | some .gt | some .eq => true
  | _ => false

def isAtMost : Option Ordering → Bool
  | some .lt | some .eq => true
  | _ => false

def holds (c : Comparison) (stored operand : Value) : Bool :=
  match c, stored, operand with
  | .equal, v, w => v.equal w
  | .greater, v, w => v.compare? w = some .gt
  | .greaterEqual, v, w => isAtLeast (v.compare? w)
  | .less, v, w => v.compare? w = some .lt
  | .lessEqual, v, w => isAtMost (v.compare? w)
  | .isIn, v, .list ws => ws.any fun w => v.equal w
  | .isIn, v, w => v.equal w
  | .like, .string text, .string pattern => Pattern.matchesText pattern text
  | .like, _, _ => false
  | .between, v, .list [low, high] => isAtLeast (v.compare? low) && isAtMost (v.compare? high)
  | .between, _, _ => false

end Comparison

namespace Condition

/-- Whether a comparison holds of a record. An absent field compares with nothing; a parameter in
the place of the operand cannot be compared. -/
def comparisonHolds (r : Record) (c : Comparison) (column : Column) : Outcome Bool :=
  match column.value with
  | .param name =>
      .error (.unsupported s!"memory backend cannot evaluate unbound parameter @{name}")
  | operand =>
      match r.lookup column.name with
      | some stored => .ok (c.holds stored operand)
      | none => .ok false

mutual

/-- Whether a condition holds of a record; conditions joined by `and` and `or` are tried from the
left until one decides. -/
def holds (r : Record) : Condition → Outcome Bool
  | .compare c column => comparisonHolds r c column
  | .group .and children => allHold r children
  | .group .or children => anyHolds r children
  | .not inner => (inner.holds r).map (!·)

def allHold (r : Record) : List Condition → Outcome Bool
  | [] => .ok true
  | c :: cs => do
      if ← c.holds r then allHold r cs else .ok false

def anyHolds (r : Record) : List Condition → Outcome Bool
  | [] => .ok false
  | c :: cs => do
      if ← c.holds r then .ok true else anyHolds r cs

end

def holdsIfAny (condition : Option Condition) (r : Record) : Outcome Bool :=
  match condition with
  | none => .ok true
  | some c => c.holds r

end Condition

end RecordQuery
