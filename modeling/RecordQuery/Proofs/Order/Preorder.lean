import RecordQuery.Value.Order

namespace RecordQuery

namespace TotalPreorder

variable {o o' p p' : Ordering}

theorem ne_gt_of_then (h : o.then p ≠ .gt) : o ≠ .gt := by
  cases o with
  | lt | eq => decide
  | gt => exact h

theorem then_ne_gt (ho : o ≠ .gt) (hp : p ≠ .gt) : o.then p ≠ .gt := by
  cases o with
  | lt => exact ho
  | eq => exact hp
  | gt => exact ho

theorem then_lt (h : o ≠ .gt) : o.then .lt = .lt := by
  cases o with
  | lt | eq => rfl
  | gt => exact absurd rfl h

/-- Two pairs of comparisons in a row, neither pair downwards: comparing the ends by the first of
the pairs and then by the second is comparing by one pair and then by the other. -/
theorem then_then {q : Ordering} (hleft : o.then p ≠ .gt) (hright : o'.then p' ≠ .gt)
    (hq : o = .eq → o' = .eq → q = p.then p') :
    (o.then o').then q = (o.then p).then (o'.then p') := by
  cases o with
  | lt => rfl
  | gt => exact absurd rfl hleft
  | eq =>
      cases o' with
      | lt => exact (then_lt hleft).symm
      | gt => exact absurd rfl hright
      | eq => exact hq rfl rfl

end TotalPreorder

/-- A comparison that is a total preorder on the things of which `P` holds. -/
structure TotalPreorder {α : Type} (cmp : α → α → Ordering) (P : α → Prop) : Prop where
  self : ∀ {a}, P a → cmp a a = .eq
  swap : ∀ {a b}, P a → P b → cmp b a = (cmp a b).swap
  trans : ∀ {a b c}, P a → P b → P c → cmp a b ≠ .gt → cmp b c ≠ .gt → cmp a c ≠ .gt

namespace TotalPreorder

variable {α β : Type} {cmp other : α → α → Ordering} {P Q : α → Prop} {a b c : α}

theorem transCmp (h : TotalPreorder cmp P) : Std.TransCmp fun a b : {a // P a} => cmp a b where
  eq_swap := fun {a b} => h.swap b.2 a.2
  isLE_trans := fun {a b c} hab hbc => by
    rw [Ordering.isLE_iff_ne_gt] at hab hbc ⊢
    exact h.trans a.2 b.2 c.2 hab hbc

theorem of_transCmp (cmp : α → α → Ordering) [Std.TransCmp cmp] : TotalPreorder cmp P where
  self _ := Std.ReflCmp.compare_self
  swap _ _ := Std.OrientedCmp.eq_swap
  trans _ _ _ hab hbc := by
    rw [ne_eq, ← Ordering.isLE_iff_ne_gt] at hab hbc ⊢
    exact Std.TransCmp.isLE_trans hab hbc

theorem alike (h : TotalPreorder cmp P) (ha : P a) (hb : P b) (hc : P c) (hab : cmp a b = .eq) :
    cmp a c = cmp b c := by
  have htrans := h.transCmp
  exact htrans.congr_left (a := ⟨a, ha⟩) (b := ⟨b, hb⟩) (c := ⟨c, hc⟩) hab

theorem comp (h : TotalPreorder cmp P) (ha : P a) (hb : P b) (hc : P c) (hab : cmp a b ≠ .gt)
    (hbc : cmp b c ≠ .gt) : cmp a c = (cmp a b).then (cmp b c) := by
  have htrans := h.transCmp
  cases hcmp : cmp a b with
  | lt =>
      rw [ne_eq, ← Ordering.isLE_iff_ne_gt] at hbc
      exact htrans.lt_of_lt_of_isLE (a := ⟨a, ha⟩) (b := ⟨b, hb⟩) (c := ⟨c, hc⟩) hcmp hbc
  | eq => exact h.alike ha hb hc hcmp
  | gt => exact absurd hcmp hab

theorem mono (h : TotalPreorder cmp P) (hQ : ∀ a, Q a → P a) : TotalPreorder cmp Q where
  self ha := h.self (hQ _ ha)
  swap ha hb := h.swap (hQ _ ha) (hQ _ hb)
  trans ha hb hc := h.trans (hQ _ ha) (hQ _ hb) (hQ _ hc)

theorem on (h : TotalPreorder cmp P) (f : β → α) :
    TotalPreorder (fun a b => cmp (f a) (f b)) fun b => P (f b) where
  self ha := h.self ha
  swap ha hb := h.swap ha hb
  trans ha hb hc := h.trans ha hb hc

theorem reversed (h : TotalPreorder cmp P) : TotalPreorder (fun a b => (cmp a b).swap) P where
  self ha := by rw [h.self ha, Ordering.swap_eq]
  swap ha hb := by rw [h.swap ha hb]
  trans ha hb hc hab hbc := by
    rw [← h.swap ha hb] at hab
    rw [← h.swap hb hc] at hbc
    rw [← h.swap ha hc]
    exact h.trans hc hb ha hbc hab

theorem thenBy (h : TotalPreorder cmp P) (hother : TotalPreorder other P) :
    TotalPreorder (fun a b => (cmp a b).then (other a b)) P where
  self ha := by rw [h.self ha, hother.self ha, Ordering.eq_then]
  swap ha hb := by rw [h.swap ha hb, hother.swap ha hb, Ordering.swap_then]
  trans {a b c} ha hb hc hab hbc := by
    have hfirst := h.comp ha hb hc (ne_gt_of_then hab) (ne_gt_of_then hbc)
    have hpair : (cmp a c).then (other a c) =
        ((cmp a b).then (other a b)).then ((cmp b c).then (other b c)) := by
      rw [hfirst]
      refine then_then hab hbc fun hab' hbc' => ?_
      rw [hab', Ordering.eq_then] at hab
      rw [hbc', Ordering.eq_then] at hbc
      exact hother.comp ha hb hc hab hbc
    rw [hpair]
    exact then_ne_gt hab hbc

end TotalPreorder

end RecordQuery
