import RecordQuery.Statement.Basic
import RecordQuery.Store.Basic
import RecordQuery.Store.Match

namespace RecordQuery

/-- The order of two records by one key; absent values come first, and a descending key turns the
order round. -/
def SortKey.order (k : SortKey) (a b : Record) : Ordering :=
  let o := Value.orderAbsentFirst (a.lookup k.name) (b.lookup k.name)
  match k.direction with
  | .ascending => o
  | .descending => o.swap

namespace Store

def orderBy : List SortKey → Record → Record → Ordering
  | [], _, _ => .eq
  | k :: ks, a, b => (k.order a b).then (orderBy ks a b)

/-- Puts a record among records that stand in falling order: after those it comes before. -/
def settle (order : Record → Record → Ordering) (r : Record) : List Record → List Record
  | [] => [r]
  | s :: ss => if order r s = .lt then s :: settle order r ss else r :: s :: ss

/-- The records in rising order; records that tie stay in the order in which they came. -/
def sortBy (order : Record → Record → Ordering) (rs : List Record) : List Record :=
  (rs.foldl (fun sorted r => settle order r sorted) []).reverse

theorem settle_perm (order : Record → Record → Ordering) (r : Record) (rs : List Record) :
    (settle order r rs).Perm (r :: rs) := by
  induction rs with
  | nil => exact .refl _
  | cons s ss ih =>
      unfold settle
      split
      · exact (ih.cons s).trans (.swap r s ss)
      · exact .refl _

def matching (condition : Option Condition) : List Record → Outcome (List Record)
  | [] => .ok []
  | r :: rs => do
      let hit ← Condition.holdsIfAny condition r
      let hits ← matching condition rs
      .ok (if hit then r :: hits else hits)

def window (skip limit : UInt64) (rs : List Record) : List Record :=
  let rest := rs.drop skip.toNat
  if limit = 0 then rest else rest.take limit.toNat

def select (s : Store) (q : Selection) : Outcome (List Record) := do
  let rows ← matching q.condition (s.records q.entity)
  .ok ((window q.skip q.limit (sortBy (orderBy q.sorts) rows)).map fun r => r.project q.fields)

end Store

end RecordQuery
