import RecordQuery.Proofs.Store.Deleting

namespace RecordQuery

namespace Value

/-- Under a sort key tie the values that compare equal, and what both records lack. -/
def Ties : Option Value → Option Value → Prop
  | none, none => True
  | some v, some w => v.order w = .eq
  | none, some _ | some _, none => False

/-- What a record lacks comes before every value; a value comes before those it is no greater
than. -/
def Precedes : Option Value → Option Value → Prop
  | none, _ => True
  | some _, none => False
  | some v, some w => v.order w ≠ .gt

instance : DecidableRel Ties
  | none, none => .isTrue trivial
  | some v, some w => inferInstanceAs (Decidable (v.order w = .eq))
  | none, some _ | some _, none => .isFalse id

variable {v w : Option Value}

theorem orderAbsentFirst_eq_iff : orderAbsentFirst v w = .eq ↔ Ties v w := by
  cases v with
  | none => cases w <;> simp [orderAbsentFirst, Ties]
  | some v => cases w <;> simp [orderAbsentFirst, Ties]

theorem orderAbsentFirst_ne_gt_iff : orderAbsentFirst v w ≠ .gt ↔ Precedes v w := by
  cases v with
  | none => cases w <;> simp [orderAbsentFirst, Precedes]
  | some v => cases w <;> simp [orderAbsentFirst, Precedes]

theorem orderAbsentFirst_swap (v w : Option Value) :
    (orderAbsentFirst v w).swap = orderAbsentFirst w v := by
  cases v with
  | none => cases w <;> rfl
  | some v =>
      cases w with
      | none => rfl
      | some w => exact (order_swap v w).symm

end Value

namespace SortKey

variable {k : SortKey} {a b : Record}

theorem order_eq_iff : k.order a b = .eq ↔ Value.Ties (a.lookup k.name) (b.lookup k.name) := by
  unfold order
  cases k.direction with
  | ascending => exact Value.orderAbsentFirst_eq_iff
  | descending => exact Ordering.swap_eq_eq.trans Value.orderAbsentFirst_eq_iff

theorem order_ne_gt_iff : k.order a b ≠ .gt ↔
    match k.direction with
    | .ascending => Value.Precedes (a.lookup k.name) (b.lookup k.name)
    | .descending => Value.Precedes (b.lookup k.name) (a.lookup k.name) := by
  unfold order
  cases k.direction with
  | ascending => exact Value.orderAbsentFirst_ne_gt_iff
  | descending =>
      simp only [Value.orderAbsentFirst_swap]
      exact Value.orderAbsentFirst_ne_gt_iff

end SortKey

namespace Store

open Condition (Told met holdsIfAny)

variable {s : Store} {q : Selection} {rs : List Record}

/-- The values under a sort key of the records that a selection has to sort. -/
def KeyValue (s : Store) (q : Selection) (k : SortKey) (v : Value) : Prop :=
  ∃ r ∈ s.records q.entity, holdsIfAny q.condition r = .ok true ∧ r.lookup k.name = some v

theorem sorts_totalPreorder
    (hkeys : ∀ k ∈ q.sorts, TotalPreorder Value.order (KeyValue s q k)) :
    TotalPreorder (orderBy q.sorts) fun r =>
      r ∈ s.records q.entity ∧ holdsIfAny q.condition r = .ok true := by
  refine orderBy_totalPreorder fun k hk => ?_
  refine (k.totalPreorder (hkeys k hk)).mono fun r hr v hv => ?_
  exact ⟨r, hr.1, hr.2, hv⟩

theorem window_eq (skip limit : UInt64) (rs : List Record) : window skip limit rs =
    if limit = 0 then rs.drop skip.toNat
    else rs.extract skip.toNat (skip.toNat + limit.toNat) := by
  unfold window
  split
  · rfl
  · simp [List.extract_eq_take_drop]

/-- Where the condition can be told of every record and the values under the sort keys can be
sorted, a selection returns the projections of a window of the records that meet the condition. They
stand in the order of the keys: the first key under which two of them do not tie decides, by the
values that they have there, a missing one first, and the other way round for a descending key. Those
that tie under all keys stand as they came. -/
theorem selection_sorts_met (s : Store) (q : Selection)
    (htold : ∀ r ∈ s.records q.entity, ∃ hit, holdsIfAny q.condition r = .ok hit)
    (hkeys : ∀ k ∈ q.sorts, TotalPreorder Value.order (KeyValue s q k)) :
    ∃ sorted : List Record,
      sorted.Perm ((s.records q.entity).filter (met q.condition)) ∧
      (sorted.Pairwise fun a b => ∀ before k after, q.sorts = before ++ k :: after →
        (∀ j ∈ before, Value.Ties (a.lookup j.name) (b.lookup j.name)) →
        match k.direction with
        | .ascending => Value.Precedes (a.lookup k.name) (b.lookup k.name)
        | .descending => Value.Precedes (b.lookup k.name) (a.lookup k.name)) ∧
      (∀ a ∈ sorted,
        sorted.filter (fun b => ∀ k ∈ q.sorts, Value.Ties (a.lookup k.name) (b.lookup k.name)) =
        ((s.records q.entity).filter (met q.condition)).filter
          fun b => ∀ k ∈ q.sorts, Value.Ties (a.lookup k.name) (b.lookup k.name)) ∧
      s.select q = .ok
        ((if q.limit = 0 then sorted.drop q.skip.toNat
          else sorted.extract q.skip.toNat (q.skip.toNat + q.limit.toNat)).map fun r =>
            if q.fields = [] then r
            else ⟨r.entity, q.fields.filterMap fun field => (r.lookup field).map (⟨field, ·⟩)⟩) := by
  have hmet : ∀ r ∈ (s.records q.entity).filter (met q.condition),
      r ∈ s.records q.entity ∧ holdsIfAny q.condition r = .ok true := by
    intro r hr
    rw [List.mem_filter] at hr
    refine ⟨hr.1, ?_⟩
    rw [Told.holdsIfAny_eq htold r hr.1, hr.2]
  have hsorts := sorts_totalPreorder hkeys
  have hperm := sortBy_perm (orderBy q.sorts) ((s.records q.entity).filter (met q.condition))
  refine ⟨_, hperm, ?_, ?_, ?_⟩
  · refine (sortBy_pairwise hsorts hmet).imp fun {a b} hab before k after hsplit htie => ?_
    apply SortKey.order_ne_gt_iff.1
    apply orderBy_ne_gt_iff.1 hab before k after hsplit
    intro j hj
    exact SortKey.order_eq_iff.2 (htie j hj)
  · intro a ha
    have hstable := filter_sortBy hsorts (hmet a (hperm.mem_iff.1 ha)) hmet
    simp only [orderBy_eq_iff, SortKey.order_eq_iff] at hstable
    exact hstable
  · unfold select
    rw [matching_of_told htold, Outcome.ok_bind, window_eq]
    rfl

def mixed : Store :=
  ⟨[⟨"a", [
    ⟨⟨"a", [⟨"n", .int 1⟩, ⟨"v", .float ⟨false, 0x3FF8000000000000, by decide⟩⟩]⟩, none⟩,
    ⟨⟨"a", [⟨"n", .int 2⟩, ⟨"v", .int 3⟩]⟩, none⟩,
    ⟨⟨"a", [⟨"n", .int 3⟩]⟩, none⟩,
    ⟨⟨"a", [⟨"n", .int 4⟩, ⟨"v", .int 3⟩]⟩, none⟩,
    ⟨⟨"a", [⟨"n", .int 5⟩, ⟨"v", .null⟩]⟩, none⟩]⟩]⟩

def ranking : Selection :=
  ⟨"a", ["v", "n"], some (.not (.compare .equal ⟨"n", .int 5⟩)), [⟨"v", .descending⟩], 2, 1⟩

theorem ranking_sorted :
    (∀ r ∈ mixed.records "a", ∃ hit, holdsIfAny ranking.condition r = .ok hit) ∧
    (∀ k ∈ ranking.sorts, TotalPreorder Value.order (KeyValue mixed ranking k)) ∧
    mixed.select ranking = .ok [⟨"a", [⟨"v", .int 3⟩, ⟨"n", .int 4⟩]⟩,
      ⟨"a", [⟨"v", .float ⟨false, 0x3FF8000000000000, by decide⟩⟩, ⟨"n", .int 1⟩]⟩] ∧
    ∃ sorted : List Record,
      sorted.Perm ((mixed.records "a").filter (met ranking.condition)) ∧
      (sorted.Pairwise fun a b => Value.Precedes (b.lookup "v") (a.lookup "v")) ∧
      mixed.select ranking = .ok ((sorted.extract 1 3).map fun r => r.project ["v", "n"]) := by
  have htold : ∀ r ∈ mixed.records "a", ∃ hit, holdsIfAny ranking.condition r = .ok hit := by
    decide
  have hkeys : ∀ k ∈ ranking.sorts, TotalPreorder Value.order (KeyValue mixed ranking k) := by
    have hapart : Value.Apart (· = 3) fun _ => True := by
      intro i j x hi hj _ _ _
      rw [hi, hj]
    have hdrawn : ∀ r ∈ mixed.records "a", ∀ v ∈ r.lookup "v",
        v = .int 3 ∨ v = .null ∨ v = .float ⟨false, 0x3FF8000000000000, by decide⟩ := by
      decide
    intro k hk
    rw [List.mem_singleton.1 hk]
    refine (Value.order_totalPreorder hapart).mono fun v hv => ?_
    obtain ⟨r, hr, -, hlookup⟩ := hv
    rcases hdrawn r hr v hlookup with rfl | rfl | rfl
    · exact rfl
    · exact trivial
    · exact trivial
  have hrows : mixed.select ranking = .ok [⟨"a", [⟨"v", .int 3⟩, ⟨"n", .int 4⟩]⟩,
      ⟨"a", [⟨"v", .float ⟨false, 0x3FF8000000000000, by decide⟩⟩, ⟨"n", .int 1⟩]⟩] := by
    decide +kernel
  obtain ⟨sorted, hperm, hsorted, -, hselect⟩ := selection_sorts_met mixed ranking htold hkeys
  rw [if_neg (by decide : ranking.limit ≠ 0)] at hselect
  refine ⟨htold, hkeys, hrows, sorted, hperm, hsorted.imp fun {a b} hab => ?_, hselect⟩
  exact hab [] ⟨"v", .descending⟩ [] rfl (List.forall_mem_nil _)

end Store

end RecordQuery
