import Mathlib.Data.List.Induction
import RecordQuery.Proofs.Value.Order
import RecordQuery.Store.Rows

namespace RecordQuery

open TotalPreorder

theorem Value.absentFirst_totalPreorder {V : Value → Prop} (h : TotalPreorder Value.order V) :
    TotalPreorder Value.orderAbsentFirst fun v? => ∀ v ∈ v?, V v where
  self {a} ha := by
    cases a with
    | none => rfl
    | some v => exact h.self (ha v rfl)
  swap {a b} ha hb := by
    cases a with
    | none => cases b <;> rfl
    | some v =>
        cases b with
        | none => rfl
        | some w => exact h.swap (ha v rfl) (hb w rfl)
  trans {a b c} ha hb hc hab hbc := by
    cases a with
    | none =>
        cases c <;> simp [Value.orderAbsentFirst]
    | some v =>
        cases b with
        | none => exact absurd rfl hab
        | some w =>
            cases c with
            | none => exact absurd rfl hbc
            | some u => exact h.trans (ha v rfl) (hb w rfl) (hc u rfl) hab hbc

theorem SortKey.totalPreorder (k : SortKey) {V : Value → Prop}
    (h : TotalPreorder Value.order V) :
    TotalPreorder k.order fun r => ∀ v ∈ r.lookup k.name, V v := by
  have hlookup := (Value.absentFirst_totalPreorder h).on fun r : Record => r.lookup k.name
  obtain ⟨name, direction⟩ := k
  cases direction with
  | ascending => exact hlookup
  | descending => exact hlookup.reversed

namespace Store

open Value (Apart DrawnFrom)

variable {order : Record → Record → Ordering} {P : Record → Prop} {r s a b : Record}
  {rs : List Record}

theorem settle_pairwise (h : TotalPreorder order P) (hr : P r) (hrs : ∀ s ∈ rs, P s)
    (hsorted : rs.Pairwise fun a b => order b a ≠ .gt) :
    (settle order r rs).Pairwise fun a b => order b a ≠ .gt := by
  induction rs with
  | nil => exact List.pairwise_singleton _ r
  | cons s ss ih =>
      rw [List.forall_mem_cons] at hrs
      have htail := List.pairwise_cons.1 hsorted
      unfold settle
      split
      · next hlt =>
          refine List.pairwise_cons.2 ⟨?_, ih hrs.2 htail.2⟩
          intro t ht
          rcases List.mem_cons.1 ((settle_perm order r ss).mem_iff.1 ht) with rfl | ht
          · rw [hlt]
            decide
          · exact htail.1 t ht
      · next hlt =>
          have hsr : order s r ≠ .gt := by
            rw [h.swap hr hrs.1]
            cases hcmp : order r s with
            | lt => exact absurd hcmp hlt
            | eq | gt => decide
          refine List.pairwise_cons.2 ⟨?_, hsorted⟩
          intro t ht
          rcases List.mem_cons.1 ht with rfl | ht
          · exact hsr
          · exact h.trans (hrs.2 t ht) hrs.1 hr (htail.1 t ht) hsr

theorem filter_settle (h : TotalPreorder order P) (ha : P a) (hr : P r) (hrs : ∀ s ∈ rs, P s) :
    (settle order r rs).filter (fun b => order a b = .eq) =
      (r :: rs).filter fun b => order a b = .eq := by
  induction rs with
  | nil => rfl
  | cons s ss ih =>
      rw [List.forall_mem_cons] at hrs
      unfold settle
      split
      · next hlt =>
          rw [List.filter_cons, ih hrs.2]
          by_cases has : order a s = .eq
          · have har : order a r ≠ .eq := by
              intro har
              have hrs' := h.alike ha hr hrs.1 har
              rw [has, hlt] at hrs'
              cases hrs'
            simp [has, har]
          · simp [has, List.filter_cons]
      · rfl

theorem sortBy_concat (order : Record → Record → Ordering) (rs : List Record) (r : Record) :
    sortBy order (rs ++ [r]) = (settle order r (sortBy order rs).reverse).reverse := by
  simp [sortBy]

theorem sortBy_perm (order : Record → Record → Ordering) (rs : List Record) :
    (sortBy order rs).Perm rs := by
  induction rs using List.reverseRecOn with
  | nil => exact .refl _
  | append_singleton rs r ih =>
      rw [sortBy_concat]
      calc List.Perm (settle order r (sortBy order rs).reverse).reverse
            (settle order r (sortBy order rs).reverse) := List.reverse_perm _
        List.Perm _ (r :: (sortBy order rs).reverse) := settle_perm order r _
        List.Perm _ (r :: rs) := ((List.reverse_perm _).trans ih).cons r
        List.Perm _ (rs ++ [r]) := (List.perm_append_singleton r rs).symm

theorem sortBy_pairwise (h : TotalPreorder order P) (hrs : ∀ r ∈ rs, P r) :
    (sortBy order rs).Pairwise fun a b => order a b ≠ .gt := by
  induction rs using List.reverseRecOn with
  | nil => exact .nil
  | append_singleton rs r ih =>
      rw [List.forall_mem_append, List.forall_mem_singleton] at hrs
      have hmem : ∀ s ∈ (sortBy order rs).reverse, P s := by
        intro s hs
        exact hrs.1 s ((sortBy_perm order rs).mem_iff.1 (List.mem_reverse.1 hs))
      rw [sortBy_concat, List.pairwise_reverse]
      exact settle_pairwise h hrs.2 hmem (List.pairwise_reverse.2 (ih hrs.1))

theorem filter_sortBy (h : TotalPreorder order P) (ha : P a) (hrs : ∀ r ∈ rs, P r) :
    (sortBy order rs).filter (fun b => order a b = .eq) =
      rs.filter fun b => order a b = .eq := by
  induction rs using List.reverseRecOn with
  | nil => rfl
  | append_singleton rs r ih =>
      rw [List.forall_mem_append, List.forall_mem_singleton] at hrs
      have hmem : ∀ s ∈ (sortBy order rs).reverse, P s := by
        intro s hs
        exact hrs.1 s ((sortBy_perm order rs).mem_iff.1 (List.mem_reverse.1 hs))
      rw [sortBy_concat, List.filter_reverse, filter_settle h ha hrs.2 hmem, List.filter_cons,
        List.filter_append, ← ih hrs.1]
      by_cases har : order a r = .eq <;> simp [har, List.filter_reverse]

theorem orderBy_totalPreorder {keys : List SortKey}
    (h : ∀ k ∈ keys, TotalPreorder k.order P) : TotalPreorder (orderBy keys) P := by
  induction keys with
  | nil => exact ⟨fun _ => rfl, fun _ _ => rfl, fun _ _ _ hab _ => hab⟩
  | cons k ks ih =>
      rw [List.forall_mem_cons] at h
      exact h.1.thenBy (ih h.2)

def KeysDrawnFrom (I : Int64 → Prop) (F : Double → Prop) (keys : List SortKey) (r : Record) :
    Prop :=
  ∀ k ∈ keys, ∀ v ∈ r.lookup k.name, v.Each (DrawnFrom I F)

/-- The order of values is reflexive and turns round with its sides. It is transitive on the values
with integers and floating numbers of two kinds exactly where no floating number stands for two of
the integers, as none does for integers below 2⁵³ in size. There values that tie compare alike to
every third, and records can be sorted by any keys. -/
theorem sortable_iff_apart (I : Int64 → Prop) (F : Double → Prop) :
    (∀ v : Value, v.order v = .eq) ∧
    (∀ v w : Value, w.order v = (v.order w).swap) ∧
    ((∀ a b c : Value, a.Each (DrawnFrom I F) → b.Each (DrawnFrom I F) →
        c.Each (DrawnFrom I F) → a.order b ≠ .gt → b.order c ≠ .gt → a.order c ≠ .gt) ↔
      Apart I F) ∧
    Apart (fun i => i.toInt.natAbs < 9007199254740992) F ∧
    (Apart I F →
      (∀ a b c : Value, a.Each (DrawnFrom I F) → b.Each (DrawnFrom I F) →
        c.Each (DrawnFrom I F) → a.order b = .eq → a.order c = b.order c) ∧
      ∀ keys : List SortKey, TotalPreorder (orderBy keys) (KeysDrawnFrom I F keys)) := by
  refine ⟨Value.order_self, Value.order_swap, ?_, Value.apart_of_small F,
    fun hapart => ⟨fun a b c ha hb hc hab => ?_, fun keys => ?_⟩⟩
  · rw [← Value.order_totalPreorder_iff]
    constructor
    · intro h
      exact ⟨fun _ => Value.order_self _, fun _ _ => Value.order_swap _ _, h _ _ _⟩
    · intro h a b c
      exact h.trans
  · exact (Value.order_totalPreorder hapart).alike ha hb hc hab
  · refine orderBy_totalPreorder fun k hk => ?_
    exact (k.totalPreorder (Value.order_totalPreorder hapart)).mono fun r hr => hr k hk

theorem single_sortable :
    Apart (· = 9007199254740993) (fun _ => True) ∧
    TotalPreorder (orderBy [⟨"age", .descending⟩])
      (KeysDrawnFrom (· = 9007199254740993) (fun _ => True) [⟨"age", .descending⟩]) := by
  have hapart : Apart (· = 9007199254740993) fun _ => True := by
    intro i j _ hi hj _ _ _
    rw [hi, hj]
  exact ⟨hapart, ((sortable_iff_apart _ _).2.2.2.2 hapart).2 _⟩

def aged (age : Value) : Record := ⟨"God", [⟨"age", age⟩]⟩

/-- The number 2⁵³ ties with two integers that differ, and the larger of them stays in front. -/
theorem rounded_unsortable :
    (∃ a b c : Value, a.order b = .eq ∧ b.order c = .eq ∧ a.order c = .gt) ∧
    ¬TotalPreorder Value.order (fun _ => True) ∧
    ∃ x : Double, (Value.int 9007199254740992).order (.float x) = .eq ∧
      sortBy (orderBy [⟨"age", .ascending⟩])
          [aged (.int 9007199254740993), aged (.float x), aged (.int 9007199254740992)] =
        [aged (.int 9007199254740993), aged (.float x), aged (.int 9007199254740992)] := by
  have hleft : (Value.int 9007199254740993).order
      (.float ⟨false, 0x4340000000000000, by decide⟩) = .eq := by decide +kernel
  have hright : (Value.float ⟨false, 0x4340000000000000, by decide⟩).order
      (.int 9007199254740992) = .eq := by decide +kernel
  have hends : (Value.int 9007199254740993).order (.int 9007199254740992) = .gt := by decide
  refine ⟨⟨_, _, _, hleft, hright, hends⟩, fun h => ?_, ⟨false, 0x4340000000000000, by decide⟩,
    ?_, ?_⟩
  · have hkept := h.trans trivial trivial trivial (ne_of_eq_of_ne hleft (by decide))
      (ne_of_eq_of_ne hright (by decide))
    exact hkept hends
  · decide +kernel
  · decide +kernel

theorem orderBy_eq_iff {keys : List SortKey} :
    orderBy keys a b = .eq ↔ ∀ k ∈ keys, k.order a b = .eq := by
  induction keys with
  | nil => exact ⟨fun _ => List.forall_mem_nil _, fun _ => rfl⟩
  | cons k ks ih => rw [orderBy, Ordering.then_eq_eq, ih, List.forall_mem_cons]

theorem orderBy_ne_gt_iff {keys : List SortKey} :
    orderBy keys a b ≠ .gt ↔ ∀ before k after, keys = before ++ k :: after →
      (∀ j ∈ before, j.order a b = .eq) → k.order a b ≠ .gt := by
  induction keys with
  | nil => simp [orderBy]
  | cons j js ih =>
      rw [orderBy]
      constructor
      · intro h before k after hkeys htie
        cases before with
        | nil =>
            cases hkeys
            exact ne_gt_of_then h
        | cons i is =>
            cases hkeys
            rw [List.forall_mem_cons] at htie
            rw [htie.1, Ordering.eq_then] at h
            exact ih.1 h is k after rfl htie.2
      · intro h
        have hfirst := h [] j js rfl (List.forall_mem_nil _)
        cases hcmp : j.order a b with
        | lt => simp
        | gt => exact absurd hcmp hfirst
        | eq =>
            refine ih.2 fun before k after hkeys htie => ?_
            exact h (j :: before) k after (by rw [hkeys, List.cons_append])
              (List.forall_mem_cons.2 ⟨hcmp, htie⟩)

end Store

end RecordQuery
