import RecordQuery.Error
import RecordQuery.Value.Basic

/-!
Conditions on records: comparisons of a field with a value, joined by connectives and negated. The
joining of conditions one after the other keeps a run of one connective in one group.
-/

namespace RecordQuery

inductive Comparison where
  | equal
  | greater
  | greaterEqual
  | less
  | lessEqual
  | isIn
  | like
  | between
  deriving DecidableEq, Repr

inductive Connective where
  | and
  | or
  deriving DecidableEq, Repr

inductive ConditionKind where
  | comparison (c : Comparison)
  | group (c : Connective)
  | negation
  deriving DecidableEq, Repr

def Comparison.symbol : Comparison → String
  | .equal => "="
  | .greater => ">"
  | .greaterEqual => ">="
  | .less => "<"
  | .lessEqual => "<="
  | .isIn => "in"
  | .like => "like"
  | .between => "between"

def Connective.symbol : Connective → String
  | .and => "and"
  | .or => "or"

def ConditionKind.symbol : ConditionKind → String
  | .comparison c => c.symbol
  | .group c => c.symbol
  | .negation => "not"

inductive Condition where
  | compare (comparison : Comparison) (column : Column)
  | group (connective : Connective) (children : List Condition)
  | not (inner : Condition)
  deriving Repr

namespace Condition

instance : Inhabited Condition := ⟨.group .and []⟩

def kind : Condition → ConditionKind
  | .compare c _ => .comparison c
  | .group c _ => .group c
  | .not _ => .negation

def column? : Condition → Option Column
  | .compare _ column => some column
  | _ => none

def isComparison : Condition → Bool
  | .compare .. => true
  | _ => false

def children : Condition → List Condition
  | .compare .. => []
  | .group _ children => children
  | .not inner => [inner]

/-- What a comparison may stand with: an `in` needs a list or a parameter, a `between` two
bounds. -/
def admits : Comparison → Value → Except ConditionFault Unit
  | .isIn, .list _ => .ok ()
  | .isIn, .param _ => .ok ()
  | .isIn, _ => .error .inValues
  | .between, .list [_, _] => .ok ()
  | .between, _ => .error .betweenBounds
  | _, _ => .ok ()

def ofColumn (c : Comparison) (column : Column) : Outcome Condition :=
  match admits c column.value with
  | .ok () => .ok (.compare c column)
  | .error fault => .error (.invalidCondition fault)

def ofKind (k : ConditionKind) (column : Column) : Outcome Condition :=
  match k with
  | .comparison c => ofColumn c column
  | k => .error (.unsupportedOperator k.symbol)

def ofChildren (c : Connective) (children : List Condition) : Outcome Condition :=
  match c, children with
  | .and, [] => .error (.invalidCondition .emptyAnd)
  | .or, [] => .error (.invalidCondition .emptyOr)
  | c, children => .ok (.group c children)

/-- The negation; that of a negation is what it negates. -/
def negate : Condition → Condition
  | .not inner => inner
  | other => .not other

/-- Joins a condition to the ones before it: a group of the same connective takes it in. -/
def join (left : Condition) (c : Connective) (right : Condition) : Condition :=
  match left with
  | .group c' children =>
      if c' = c then .group c (children ++ [right]) else .group c [.group c' children, right]
  | left => .group c [left, right]

theorem kind_join (left right : Condition) (c : Connective) :
    (left.join c right).kind = .group c := by
  unfold join
  split
  · split <;> rfl
  · rfl

theorem join_group_self (c : Connective) (children : List Condition) (right : Condition) :
    (group c children).join c right = group c (children ++ [right]) := by
  simp [join]

def joinAll (first : Condition) (rest : List (Connective × Condition)) : Condition :=
  rest.foldl (fun left next => left.join next.1 next.2) first

mutual

def params : Condition → List String
  | .compare _ column => column.value.params
  | .group _ children => childParams children
  | .not inner => inner.params

def childParams : List Condition → List String
  | [] => []
  | c :: cs => c.params ++ childParams cs

end

theorem childParams_eq_flatMap (cs : List Condition) : childParams cs = cs.flatMap params := by
  induction cs with
  | nil => rfl
  | cons c cs ih => simp [childParams, ih]

mutual

def same : Condition → Condition → Bool
  | .compare c a, .compare d b => c = d && a.name = b.name && a.value.same b.value
  | .group c as, .group d bs => c = d && sameChildren as bs
  | .not a, .not b => same a b
  | _, _ => false

def sameChildren : List Condition → List Condition → Bool
  | [], [] => true
  | a :: as, b :: bs => same a b && sameChildren as bs
  | _, _ => false

end

end Condition

end RecordQuery
