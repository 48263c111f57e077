import RecordQuery.Proofs.Condition.Resolve
import RecordQuery.Store.Match

/-!
The meaning of a clause as it is written, and that of the condition it resolves to. A chain is tried
from the left, `and` and `or` alike; the condition has its groups flattened and its double negations
cancelled, and tells the same of every record.
-/

namespace RecordQuery

/-- What two answers give under a connective. The right one counts only where the left one does not
decide, so that its error is not met elsewhere. -/
def Connective.combine (k : Connective) (left right : Outcome Bool) : Outcome Bool := do
  match k, ← left with
  | .and, false => .ok false
  | .or, true => .ok true
  | _, _ => right

def Connective.unit : Connective → Bool
  | .and => true
  | .or => false

namespace Clause

mutual

/-- Whether a clause holds of a record, as it is written: each connective of a chain joins what
stands left of it to the one operand on its right. -/
def holds (field : String → String) (r : Record) : Clause → Outcome Bool
  | .compare name k v => Condition.comparisonHolds r k ⟨field name, v⟩
  | .not inner => (inner.holds field r).map (!·)
  | .chain first rest => restHolds field r (first.holds field r) rest

def restHolds (field : String → String) (r : Record) (left : Outcome Bool) :
    List (Connective × Clause) → Outcome Bool
  | [] => left
  | (k, next) :: rest => restHolds field r (k.combine left (next.holds field r)) rest

end

end Clause

namespace Connective

theorem combine_assoc (k : Connective) (a b c : Outcome Bool) :
    k.combine (k.combine a b) c = k.combine a (k.combine b c) := by
  cases a with
  | error e => rfl
  | ok x => cases k <;> cases x <;> rfl

theorem combine_unit_left (k : Connective) (a : Outcome Bool) : k.combine (.ok k.unit) a = a := by
  cases k <;> rfl

theorem combine_unit_right (k : Connective) (a : Outcome Bool) : k.combine a (.ok k.unit) = a := by
  cases a with
  | error e => rfl
  | ok x => cases k <;> cases x <;> rfl

end Connective

namespace Condition

variable {r : Record}

theorem holds_group_nil (k : Connective) : (group k []).holds r = .ok k.unit := by
  cases k <;> rfl

theorem holds_group_cons (k : Connective) (c : Condition) (cs : List Condition) :
    (group k (c :: cs)).holds r = k.combine (c.holds r) ((group k cs).holds r) := by
  cases k with
  | and =>
      rw [holds, allHold]
      cases c.holds r with
      | error e => rfl
      | ok hit => cases hit <;> rfl
  | or =>
      rw [holds, anyHolds]
      cases c.holds r with
      | error e => rfl
      | ok hit => cases hit <;> rfl

theorem holds_group_concat (k : Connective) (cs : List Condition) (c : Condition) :
    (group k (cs ++ [c])).holds r = k.combine ((group k cs).holds r) (c.holds r) := by
  induction cs with
  | nil =>
      rw [List.nil_append, holds_group_cons, holds_group_nil, k.combine_unit_left,
        k.combine_unit_right]
  | cons d ds ih =>
      rw [List.cons_append, holds_group_cons, holds_group_cons, ih, k.combine_assoc]

theorem holds_group_pair (k : Connective) (c d : Condition) :
    (group k [c, d]).holds r = k.combine (c.holds r) (d.holds r) := by
  rw [holds_group_cons, holds_group_cons, holds_group_nil, k.combine_unit_right]

theorem holds_join (left : Condition) (k : Connective) (right : Condition) :
    (left.join k right).holds r = (group k [left, right]).holds r := by
  unfold join
  split
  · next k' children =>
      split
      · next hk => rw [hk, holds_group_concat, holds_group_pair]
      · rfl
  · rfl

theorem holds_negate (c : Condition) : c.negate.holds r = c.not.holds r := by
  cases c with
  | compare | group => rfl
  | not inner =>
      change inner.holds r = ((inner.holds r).map (!·)).map (!·)
      cases inner.holds r with
      | error e => rfl
      | ok hit => cases hit <;> rfl

end Condition

namespace Clause

variable {field : String → String} {r : Record}

mutual

theorem holds_resolve : ∀ {c : Clause} {tree : Condition}, c.resolve field = .ok tree →
    tree.holds r = c.holds field r
  | .compare name k v, tree, h => by
      obtain ⟨-, rfl⟩ := Condition.ofColumn_eq_ok.1 h
      rfl
  | .not inner, tree, h => by
      obtain ⟨t, ht, rfl⟩ := Outcome.map_eq_ok.1 h
      rw [Condition.holds_negate, Condition.holds, holds, holds_resolve ht]
  | .chain first rest, tree, h => by
      obtain ⟨left, hleft, h⟩ := Outcome.bind_eq_ok.1 h
      rw [holds, ← holds_resolve hleft]
      exact holds_resolveRest h

theorem holds_resolveRest : ∀ {rest : List (Connective × Clause)} {left tree : Condition},
    resolveRest field left rest = .ok tree →
      tree.holds r = restHolds field r (left.holds r) rest
  | [], left, tree, h => by
      cases h
      rfl
  | (k, next) :: rest, left, tree, h => by
      obtain ⟨right, hright, h⟩ := Outcome.bind_eq_ok.1 h
      rw [restHolds, ← holds_resolve hright, ← Condition.holds_group_pair, ← Condition.holds_join]
      exact holds_resolveRest h

end

/-- A clause that was read resolves under every naming, and the condition tells of every record what
the clause tells as it is written. Neither the flattening of groups nor the cancelling of negations
changes what is told, of whatever conditions they are made. -/
theorem resolve_keeps_meaning {limits : Limits} {ts : List Token} {read : Read Token Clause ts}
    (h : Written.readClause limits ts = .ok read) (naming : Naming) (entity : String) :
    (∃ tree, read.value.resolve (naming.field entity) = .ok tree ∧
      ∀ r : Record, tree.holds r = read.value.holds (naming.field entity) r) ∧
    (∀ (left right : Condition) (k : Connective) (r : Record),
      (left.join k right).holds r = (Condition.group k [left, right]).holds r ∧
        (Condition.group k [left, right]).holds r = k.combine (left.holds r) (right.holds r)) ∧
    ∀ (c : Condition) (r : Record),
      c.negate.holds r = c.not.holds r ∧ c.not.holds r = (c.holds r).map (!·) := by
  refine ⟨?_, fun left right k r => ?_, fun c r => ?_⟩
  · obtain ⟨tree, htree⟩ := exists_resolve (Written.admitted_of_readClause h)
    exact ⟨tree, htree, fun r => holds_resolve htree⟩
  · exact ⟨Condition.holds_join left k right, Condition.holds_group_pair k left right⟩
  · exact ⟨Condition.holds_negate c, rfl⟩

def flattening : Clause :=
  .chain (.chain (.compare "a" .equal (.int 1)) [(.and, .compare "b" .less (.int 2))])
    [(.and, .not (.not (.compare "c" .like (.string "x"))))]

theorem flattening_keeps_meaning :
    flattening.resolve (Naming.identity.field "t") = .ok (.group .and [
      .compare .equal ⟨"a", .int 1⟩, .compare .less ⟨"b", .int 2⟩,
      .compare .like ⟨"c", .string "x"⟩]) ∧
    ∃ tree, flattening.resolve (Naming.identity.field "t") = .ok tree ∧
      ∀ r : Record, tree.holds r = flattening.holds (Naming.identity.field "t") r := by
  refine ⟨rfl, ?_⟩
  have hread : Written.readClause {} [⟨.mark .openParen, []⟩, ⟨.word "a", []⟩,
      ⟨.mark .equal, []⟩, ⟨.int 1, []⟩, ⟨.word "and", []⟩, ⟨.word "b", []⟩, ⟨.mark .less, []⟩,
      ⟨.int 2, []⟩, ⟨.mark .closeParen, []⟩, ⟨.word "and", []⟩, ⟨.word "not", []⟩,
      ⟨.word "not", []⟩, ⟨.word "c", []⟩, ⟨.word "like", []⟩, ⟨.string "x", []⟩] =
      .ok ⟨flattening, [], by decide⟩ := by
    cbv
  exact (resolve_keeps_meaning hread .identity "t").1

end Clause

end RecordQuery
