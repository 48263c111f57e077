import RecordQuery.Condition.Basic
import RecordQuery.Written.Literal

/-!
The condition of a `where` clause as it is written: comparisons, negations, and chains in which
connectives of equal rank join operands from left to right.
-/

namespace RecordQuery

inductive Clause where
  | compare (field : String) (comparison : Comparison) (value : Value)
  | not (inner : Clause)
  | chain (first : Clause) (rest : List (Connective × Clause))
  deriving Repr

namespace Clause

mutual

def params : Clause → List String
  | .compare _ _ v => v.params
  | .not inner => inner.params
  | .chain first rest => first.params ++ restParams rest

def restParams : List (Connective × Clause) → List String
  | [] => []
  | (_, c) :: cs => c.params ++ restParams cs

end

end Clause

namespace Written

def markComparison? : Mark → Option Comparison
  | .equal => some .equal
  | .greater => some .greater
  | .greaterEqual => some .greaterEqual
  | .less => some .less
  | .lessEqual => some .lessEqual
  | _ => none

def mayNegate : Comparison → Bool
  | .isIn | .like | .between => true
  | _ => false

def checkCount (limits : Limits) (count : Nat) : Outcome Unit :=
  if limits.inList < count then .error (.limitExceeded .inList limits.inList count) else .ok ()

/-- The values of an `in` list in parentheses, after `count` of them. -/
def readListed (limits : Limits) (count : Nat) (ts : List Token) : Reading (List Value) ts := do
  let ⟨v, rest, h⟩ ← readValue limits 0 ts
  checkCount limits (count + 1)
  match comma? rest with
  | some ⟨_, rest', h'⟩ =>
      let vs ← readListed limits (count + 1) rest'
      .ok (((vs.map (v :: ·)).after h').after h)
  | none =>
      let closed ← expectMark .closeParen rest
      .ok ((closed.map fun _ => [v]).after h)
termination_by ts.length

def readMembers (limits : Limits) : (ts : List Token) → Reading Value ts
  | ⟨.mark .openParen, _⟩ :: rest =>
      (readListed limits 0 rest).map fun r => (r.map Value.list).behind _
  | ts => do
      let ⟨v, rest, h⟩ ← readValue limits 0 ts
      match v with
      | .list items =>
          checkCount limits items.length
          .ok ⟨.list items, rest, h⟩
      | .param name => .ok ⟨.param name, rest, h⟩
      | _ => .error (Fault.inValues.at rest)

def readBounds (limits : Limits) (ts : List Token) : Reading Value ts := do
  let ⟨low, rest, h₁⟩ ← readValue limits 0 ts
  let ⟨_, rest, h₂⟩ ← expectKeyword "and" rest
  let high ← readValue limits 0 rest
  .ok (((high.map fun high => .list [low, high]).after h₂).after h₁)

def readOperand (limits : Limits) (c : Comparison) (ts : List Token) : Reading Value ts :=
  match c with
  | .isIn => readMembers limits ts
  | .between => readBounds limits ts
  | _ => readValue limits 0 ts

def readComparison : (ts : List Token) → Reading Comparison ts
  | ⟨.mark m, source⟩ :: rest =>
      match markComparison? m with
      | some c => .ok (.one c _ rest)
      | none => .error (unexpected "comparison operator" (⟨.mark m, source⟩ :: rest))
  | ⟨.word word, _⟩ :: rest =>
      if word = "like" then .ok (.one .like _ rest)
      else if word = "in" then .ok (.one .isIn _ rest)
      else if word = "between" then .ok (.one .between _ rest)
      else .error (.unsupportedOperator word)
  | ts => .error (unexpected "comparison operator" ts)

def readCompare (limits : Limits) (ts : List Token) : Reading Clause ts := do
  let ⟨field, rest, h₁⟩ ← expectWord "field name" ts
  let ⟨negated, rest, h₂⟩ := skipKeyword "not" rest
  let ⟨c, rest, h₃⟩ ← readComparison rest
  let operand ← readOperand limits c rest
  if negated && !mayNegate c then .error (Fault.misplacedNot.at operand.rest)
  else
    let compared := operand.map (Clause.compare field c)
    let clause := if negated then compared.map .not else compared
    .ok (((clause.after h₃).within h₂).after h₁)

def connective? : (ts : List Token) → Option (Read Token Connective ts)
  | ⟨.word word, _⟩ :: rest =>
      if word = "and" then some (.one .and _ rest)
      else if word = "or" then some (.one .or _ rest)
      else none
  | _ => none

/-- The operands joined as they are written; a single one is not a chain. -/
def chainOf (first : Clause) : List (Connective × Clause) → Clause
  | [] => first
  | rest => .chain first rest

mutual

def readChain (limits : Limits) (depth : Nat) (ts : List Token) :
    Reading (Clause × List (Connective × Clause)) ts := do
  let ⟨first, rest, h⟩ ← readTerm limits depth ts
  match connective? rest with
  | some ⟨c, rest', h'⟩ =>
      let chain ← readChain limits depth rest'
      .ok (((chain.map fun (next, more) => (first, (c, next) :: more)).after h').after h)
  | none => .ok ⟨(first, []), rest, h⟩
termination_by (ts.length, 1)

def readTerm (limits : Limits) (depth : Nat) (ts : List Token) : Reading Clause ts :=
  match ts with
  | ⟨.word word, source⟩ :: rest =>
      if word = "not" then do
        let depth ← deeper limits .conditionDepth depth
        let inner ← readTerm limits depth rest
        .ok ((inner.map .not).behind _)
      else readCompare limits (⟨.word word, source⟩ :: rest)
  | ⟨.mark .openParen, _⟩ :: rest => do
      let depth ← deeper limits .conditionDepth depth
      let ⟨(first, more), rest, h⟩ ← readChain limits depth rest
      let closed ← expectMark .closeParen rest
      .ok (((closed.map fun _ => chainOf first more).after h).behind _)
  | ts => readCompare limits ts
termination_by (ts.length, 0)

end

def readClause (limits : Limits) (ts : List Token) : Reading Clause ts :=
  (readChain limits 0 ts).map (·.map fun (first, rest) => chainOf first rest)

end Written

end RecordQuery
