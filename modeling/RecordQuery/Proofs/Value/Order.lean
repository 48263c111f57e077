import RecordQuery.Proofs.Number.Monotone
import RecordQuery.Proofs.Order.Preorder
import RecordQuery.Proofs.Value.Parts

/-!
The order of values for sorting. It is reflexive and turns round with its sides whatever the values
are. An integer is compared with a floating number by what it is rounded to, so the order is
transitive only where no floating number stands for two integers.
-/

namespace RecordQuery.Value

open TotalPreorder

inductive OfKind : Value → Nat → Prop
  | null : OfKind .null 0
  | bool (b : Bool) : OfKind (.bool b) 1
  | int (i : Int64) : OfKind (.int i) 2
  | float (x : Double) : OfKind (.float x) 2
  | string (s : String) : OfKind (.string s) 3
  | list (items : List Value) : OfKind (.list items) 4
  | document (columns : List Column) : OfKind (.document columns) 5
  | param (name : String) : OfKind (.param name) 6

theorem ofKind (v : Value) : OfKind v v.kindRank := by
  cases v <;> constructor

theorem ofKind_of_kindRank {v : Value} {k : Nat} (h : v.kindRank = k) : OfKind v k := by
  rw [← h]
  exact v.ofKind

variable {a b c : Value}

theorem order_of_kindRank_ne (h : a.kindRank ≠ b.kindRank) :
    a.order b = compare a.kindRank b.kindRank := by
  cases a <;> cases b <;> first | rfl | exact absurd rfl h

theorem kindRank_le_of_order (h : a.order b ≠ .gt) : a.kindRank ≤ b.kindRank := by
  by_cases hkind : a.kindRank = b.kindRank
  · exact Nat.le_of_eq hkind
  · rw [order_of_kindRank_ne hkind, ne_eq, Nat.compare_eq_gt, Nat.not_lt] at h
    exact h

theorem orderItems_self {items : List Value} (ih : ∀ v ∈ items, v.order v = .eq) :
    orderItems items items = .eq := by
  induction items with
  | nil => rfl
  | cons v vs ihs =>
      rw [List.forall_mem_cons] at ih
      rw [orderItems, ih.1, ihs ih.2, Ordering.eq_then]

theorem order_self (v : Value) : v.order v = .eq := by
  induction v using inductParts with
  | null | document => rfl
  | bool | int | float | string | param =>
      simp only [order, Double.compareTotal]
      exact Std.ReflCmp.compare_self
  | list items ih => exact orderItems_self ih

theorem orderItems_swap {items : List Value} (ih : ∀ v ∈ items, ∀ w, w.order v = (v.order w).swap)
    (others : List Value) : orderItems others items = (orderItems items others).swap := by
  induction items generalizing others with
  | nil => cases others <;> rfl
  | cons v vs ihs =>
      rw [List.forall_mem_cons] at ih
      cases others with
      | nil => rfl
      | cons w ws => rw [orderItems, orderItems, ih.1 w, ihs ih.2 ws, Ordering.swap_then]

theorem order_swap_of_sameKind (h : OfKind b a.kindRank → b.order a = (a.order b).swap) :
    b.order a = (a.order b).swap := by
  by_cases hkind : a.kindRank = b.kindRank
  · exact h (ofKind_of_kindRank hkind.symm)
  · rw [order_of_kindRank_ne hkind, order_of_kindRank_ne (Ne.symm hkind)]
    exact Std.OrientedCmp.eq_swap

theorem order_swap (v w : Value) : w.order v = (v.order w).swap := by
  induction v using inductParts generalizing w with
  | null | document =>
      refine order_swap_of_sameKind fun hw => ?_
      cases hw
      rfl
  | bool | int | float | string | param =>
      refine order_swap_of_sameKind fun hw => ?_
      cases hw <;> simp only [order, Double.compareTotal] <;> exact Std.OrientedCmp.eq_swap
  | list items ih =>
      refine order_swap_of_sameKind fun hw => ?_
      cases hw
      exact orderItems_swap ih _

section Numbers

variable {i j k : Int}

/-- The rank of a number among the floating ones; an integer has that of what it is rounded to. -/
def numberRank : Value → Int
  | .int i => (Double.ofInt i.toInt).rank
  | .float x => x.rank
  | _ => 0

theorem numberRank_le_of_order (ha : OfKind a 2) (hb : OfKind b 2) (h : a.order b ≠ .gt) :
    a.numberRank ≤ b.numberRank := by
  cases ha with
  | int i =>
      cases hb with
      | int j => exact Double.rank_ofInt_le (Int.compare_ne_gt.1 h)
      | float y => exact Int.compare_ne_gt.1 h
  | float x =>
      cases hb with
      | int j => exact Int.compare_ne_gt.1 h
      | float y => exact Int.compare_ne_gt.1 h

end Numbers

/-- No floating number of the one kind is what two integers of the other kind are rounded to. -/
def Apart (I : Int64 → Prop) (F : Double → Prop) : Prop :=
  ∀ i j x, I i → I j → F x → Double.ofInt i.toInt = x → Double.ofInt j.toInt = x → i = j

theorem apart_of_small (F : Double → Prop) :
    Apart (fun i => i.toInt.natAbs < 9007199254740992) F := by
  intro i j x hi hj _ hix hjx
  exact Int64.toInt_inj.1 (Double.ofInt_injective hi hj (hix.trans hjx.symm))

def DrawnFrom (I : Int64 → Prop) (F : Double → Prop) : Value → Prop
  | .int i => I i
  | .float x => F x
  | _ => True

variable {I : Int64 → Prop} {F : Double → Prop}

/-- Between two integers a floating number may stand that is what both of them are rounded to: the
one place where the order of numbers needs the two to be the same. -/
theorem order_numbers_trans (hapart : Apart I F) (ha : OfKind a 2) (hb : OfKind b 2)
    (hc : OfKind c 2) (hda : a.DrawnFrom I F) (hdb : b.DrawnFrom I F) (hdc : c.DrawnFrom I F)
    (hab : a.order b ≠ .gt) (hbc : b.order c ≠ .gt) : a.order c ≠ .gt := by
  have hleft := numberRank_le_of_order ha hb hab
  have hright := numberRank_le_of_order hb hc hbc
  have hac := Int.le_trans hleft hright
  cases ha with
  | float x => cases hc <;> exact Int.compare_ne_gt.2 hac
  | int i =>
      cases hc with
      | float z => exact Int.compare_ne_gt.2 hac
      | int k =>
          cases hb with
          | int j =>
              have hij := Int.compare_ne_gt.1 hab
              exact Int.compare_ne_gt.2 (Int.le_trans hij (Int.compare_ne_gt.1 hbc))
          | float y =>
              refine Int.compare_ne_gt.2 (Int.not_lt.1 fun hlt => ?_)
              have hback := Double.rank_ofInt_le (Int.le_of_lt hlt)
              have hi : Double.ofInt i.toInt = y :=
                Double.rank_injective (Int.le_antisymm hleft (Int.le_trans hright hback))
              have hk : Double.ofInt k.toInt = y :=
                Double.rank_injective (Int.le_antisymm (Int.le_trans hback hleft) hright)
              rw [hapart i k y hda hdc hdb hi hk] at hlt
              exact Int.lt_irrefl _ hlt

theorem numbers_totalPreorder (hapart : Apart I F) :
    TotalPreorder order fun v => OfKind v 2 ∧ v.DrawnFrom I F where
  self _ := order_self _
  swap _ _ := order_swap _ _
  trans ha hb hc := order_numbers_trans hapart ha.1 hb.1 hc.1 ha.2 hb.2 hc.2

theorem numbers_comp (hapart : Apart I F) (ha : OfKind a 2) (hb : OfKind b 2) (hc : OfKind c 2)
    (hda : a.Each (DrawnFrom I F)) (hdb : b.Each (DrawnFrom I F)) (hdc : c.Each (DrawnFrom I F))
    (hab : a.order b ≠ .gt) (hbc : b.order c ≠ .gt) :
    a.order c = (a.order b).then (b.order c) := by
  have hdrawn : ∀ {v : Value}, OfKind v 2 → v.Each (DrawnFrom I F) → v.DrawnFrom I F := by
    intro v hv hd
    cases hv <;> exact hd
  exact (numbers_totalPreorder hapart).comp ⟨ha, hdrawn ha hda⟩ ⟨hb, hdrawn hb hdb⟩
    ⟨hc, hdrawn hc hdc⟩ hab hbc

theorem order_comp_of_sameKind (hab : a.order b ≠ .gt) (hbc : b.order c ≠ .gt)
    (h : OfKind b a.kindRank → OfKind c a.kindRank → a.order c = (a.order b).then (b.order c)) :
    a.order c = (a.order b).then (b.order c) := by
  have hleft := kindRank_le_of_order hab
  have hright := kindRank_le_of_order hbc
  have hlt : ∀ {v w : Value}, v.kindRank < w.kindRank → v.order w = .lt := by
    intro v w hvw
    rw [order_of_kindRank_ne (Nat.ne_of_lt hvw), Nat.compare_eq_lt]
    exact hvw
  rcases Nat.lt_or_eq_of_le hleft with hab' | hab'
  · rw [hlt hab', hlt (Nat.lt_of_lt_of_le hab' hright), Ordering.lt_then]
  · rcases Nat.lt_or_eq_of_le hright with hbc' | hbc'
    · rw [hlt hbc', hlt (Nat.lt_of_le_of_lt hleft hbc'), then_lt hab]
    · exact h (ofKind_of_kindRank hab'.symm) (ofKind_of_kindRank (hab'.trans hbc').symm)

theorem orderItems_comp {D : Value → Prop} {items : List Value}
    (ih : ∀ v ∈ items, ∀ w u, D v → D w → D u → v.order w ≠ .gt → w.order u ≠ .gt →
      v.order u = (v.order w).then (w.order u))
    (hitems : ∀ v ∈ items, D v) {ws us : List Value} (hws : ∀ w ∈ ws, D w) (hus : ∀ u ∈ us, D u)
    (hleft : orderItems items ws ≠ .gt) (hright : orderItems ws us ≠ .gt) :
    orderItems items us = (orderItems items ws).then (orderItems ws us) := by
  induction items generalizing ws us with
  | nil =>
      cases ws with
      | nil => rw [orderItems, Ordering.eq_then]
      | cons w ws =>
          cases us with
          | nil => exact absurd rfl hright
          | cons u us => rfl
  | cons v vs ihs =>
      cases ws with
      | nil => exact absurd rfl hleft
      | cons w ws =>
          cases us with
          | nil => exact absurd rfl hright
          | cons u us =>
              rw [List.forall_mem_cons] at ih hitems hws hus
              rw [orderItems] at hleft hright
              have hhead := ih.1 w u hitems.1 hws.1 hus.1 (ne_gt_of_then hleft)
                (ne_gt_of_then hright)
              rw [orderItems, orderItems, orderItems, hhead]
              refine then_then hleft hright fun hvw hwu => ?_
              rw [hvw, Ordering.eq_then] at hleft
              rw [hwu, Ordering.eq_then] at hright
              exact ihs ih.2 hitems.2 hws.2 hus.2 hleft hright

theorem order_comp (hapart : Apart I F) (ha : a.Each (DrawnFrom I F))
    (hb : b.Each (DrawnFrom I F)) (hc : c.Each (DrawnFrom I F)) (hab : a.order b ≠ .gt)
    (hbc : b.order c ≠ .gt) : a.order c = (a.order b).then (b.order c) := by
  have hcompare : ∀ {α : Type} [Ord α] [Std.TransOrd α] {x y z : α}, compare x y ≠ .gt →
      compare y z ≠ .gt → compare x z = (compare x y).then (compare y z) :=
    fun hxy hyz => (TotalPreorder.of_transCmp (P := fun _ => True) compare).comp trivial trivial
      trivial hxy hyz
  induction a using inductParts generalizing b c with
  | null | document =>
      refine order_comp_of_sameKind hab hbc fun hb' hc' => ?_
      cases hb'
      cases hc'
      rfl
  | bool | string | param =>
      refine order_comp_of_sameKind hab hbc fun hb' hc' => ?_
      cases hb'
      cases hc'
      exact hcompare hab hbc
  | int | float =>
      refine order_comp_of_sameKind hab hbc fun hb' hc' => ?_
      exact numbers_comp hapart (ofKind _) hb' hc' ha hb hc hab hbc
  | list items ih =>
      refine order_comp_of_sameKind hab hbc fun hb' hc' => ?_
      cases hb'
      cases hc'
      rw [each_list] at ha hb hc
      exact orderItems_comp (fun v hv w u hv' hw hu => ih v hv hv' hw hu) ha.2 hb.2 hc.2 hab hbc

theorem order_totalPreorder (hapart : Apart I F) :
    TotalPreorder order fun v => v.Each (DrawnFrom I F) where
  self _ := order_self _
  swap _ _ := order_swap _ _
  trans ha hb hc hab hbc := by
    rw [order_comp hapart ha hb hc hab hbc]
    exact then_ne_gt hab hbc

theorem order_totalPreorder_iff :
    (TotalPreorder order fun v => v.Each (DrawnFrom I F)) ↔ Apart I F := by
  refine ⟨fun h i j x hi hj hx hix hjx => ?_, order_totalPreorder⟩
  have hsame : ∀ {m : Int64}, Double.ofInt m.toInt = x → (int m).order (float x) = .eq := by
    rintro m rfl
    exact Int.compare_eq_eq.2 rfl
  have hdi : (int i).Each (DrawnFrom I F) := hi
  have hdj : (int j).Each (DrawnFrom I F) := hj
  have hdx : (float x).Each (DrawnFrom I F) := hx
  have halike := h.alike hdi hdx hdj (hsame hix)
  rw [order_swap (int j) (float x), hsame hjx] at halike
  exact Int64.toInt_inj.1 (Int.compare_eq_eq.1 halike)

end RecordQuery.Value
