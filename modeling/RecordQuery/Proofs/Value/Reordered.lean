import RecordQuery.Proofs.Value.Filed
import RecordQuery.Store.Change

namespace RecordQuery

open Named (ranked)

namespace Named

variable {α : Type} {as bs : List (Named α)}

theorem exists_find? {name : String} (h : name ∈ as.map Named.name) :
    ∃ v, find? name as = some v := by
  induction as with
  | nil => cases h
  | cons a as ih =>
      by_cases hname : a.name = name
      · exact ⟨a.value, by rw [find?, if_pos hname]⟩
      · rw [find?_cons_of_ne hname]
        rcases List.mem_cons.1 h with heq | hmem
        · exact absurd heq.symm hname
        · exact ih hmem

theorem ranked_of_perm (h : (as.map Named.name).Nodup) (hperm : as.Perm bs) :
    ranked as = ranked bs := by
  have hbs : (bs.map Named.name).Nodup := (hperm.map Named.name).nodup_iff.1 h
  refine (rising_ranked h).eq_of_perm (rising_ranked hbs) ?_
  exact (ranked_perm as).trans (hperm.trans (ranked_perm bs).symm)

end Named

namespace Value

variable {v w : Value}

/-- The one value becomes the other when the columns of documents within it, at any depth, are put
into another order, one document after the other. -/
inductive Reordered : Value → Value → Prop
  | columns {cs ds : List Column} (h : cs.Perm ds) : Reordered (.document cs) (.document ds)
  | item (before after : List Value) {v w : Value} (h : Reordered v w) :
      Reordered (.list (before ++ v :: after)) (.list (before ++ w :: after))
  | column (before after : List Column) (name : String) {v w : Value} (h : Reordered v w) :
      Reordered (.document (before ++ ⟨name, v⟩ :: after))
        (.document (before ++ ⟨name, w⟩ :: after))
  | refl (v : Value) : Reordered v v
  | trans {u v w : Value} (h : Reordered u v) (h' : Reordered v w) : Reordered u w

namespace Reordered

theorem keyed (h : v.Reordered w) (hv : v.Each Keyed) : w.Each Keyed := by
  induction h with
  | columns h =>
      rw [each_document] at hv ⊢
      exact ⟨(h.map Named.name).nodup_iff.1 hv.1, fun d hd => hv.2 d (h.mem_iff.2 hd)⟩
  | item before after h ih =>
      rw [each_list, List.forall_mem_append, List.forall_mem_cons] at hv ⊢
      exact ⟨trivial, hv.2.1, ih hv.2.2.1, hv.2.2.2⟩
  | column before after name h ih =>
      rw [each_document, List.forall_mem_append, List.forall_mem_cons] at hv ⊢
      refine ⟨?_, hv.2.1, ih hv.2.2.1, hv.2.2.2⟩
      simpa [Keyed] using hv.1
  | refl => exact hv
  | trans h h' ih ih' => exact ih' (ih hv)

theorem filed_eq (h : v.Reordered w) (hv : v.Each Keyed) : v.filed = w.filed := by
  induction h with
  | @columns cs ds h =>
      rw [each_document] at hv
      have hnodup : ((filedColumns cs).map Named.name).Nodup := by
        rw [map_name_filedColumns]
        exact hv.1
      rw [filed, filed]
      refine congrArg _ (Named.ranked_of_perm hnodup ?_)
      rw [filedColumns_eq_map, filedColumns_eq_map]
      exact h.map _
  | item before after h ih =>
      rw [each_list, List.forall_mem_append, List.forall_mem_cons] at hv
      simp [filed, filedItems_eq_map, ih hv.2.2.1]
  | column before after name h ih =>
      rw [each_document, List.forall_mem_append, List.forall_mem_cons] at hv
      simp [filed, filedColumns_eq_map, ih hv.2.2.1]
  | refl => rfl
  | trans h h' ih ih' => exact (ih hv).trans (ih' (h.keyed hv))

end Reordered

section Sides

theorem compare_eq_comm {α : Type} [Ord α] [Std.OrientedOrd α] (a b : α) :
    some (compare a b) = some .eq ↔ some (compare b a) = some .eq := by
  rw [Option.some_inj, Option.some_inj]
  exact Std.OrientedCmp.eq_comm

theorem compare?_eq_comm (v w : Value) :
    v.compare? w = some .eq ↔ w.compare? v = some .eq := by
  have hdouble : ∀ x y : Double, x.compare? y = some .eq ↔ y.compare? x = some .eq := by
    intro x y
    have hsame := Double.same_comm x y
    simpa [Double.same] using hsame
  cases v with
  | int a =>
      cases w with
      | int b => exact compare_eq_comm a.toInt b.toInt
      | float y => exact hdouble _ y
      | _ => rfl
  | float x => cases w <;> first | exact hdouble x _ | rfl
  | string s => cases w <;> first | exact compare_eq_comm s _ | rfl
  | bool b => cases w <;> first | exact compare_eq_comm b _ | rfl
  | _ => cases w <;> rfl

theorem equalItems_comm {items others : List Value}
    (ih : ∀ v ∈ items, ∀ w ∈ others, v.equal w = w.equal v) :
    equalItems items others = equalItems others items := by
  induction items generalizing others with
  | nil => cases others <;> rfl
  | cons v vs ihs =>
      cases others with
      | nil => rfl
      | cons w ws =>
          have hmore : equalItems vs ws = equalItems ws vs := by
            apply ihs
            intro v' hv' w' hw'
            exact ih v' (List.mem_cons_of_mem _ hv') w' (List.mem_cons_of_mem _ hw')
          rw [equalItems, equalItems, hmore, ih v List.mem_cons_self w List.mem_cons_self]

theorem columnsWithin_swap {as bs : List Column} (has : (as.map Named.name).Nodup)
    (hbs : (bs.map Named.name).Nodup) (hlength : as.length = bs.length)
    (ih : ∀ a ∈ as, ∀ b ∈ bs, a.value.equal b.value = b.value.equal a.value)
    (h : columnsWithin as bs = true) : columnsWithin bs as = true := by
  rw [columnsWithin_iff] at h ⊢
  have hsubset : as.map Named.name ⊆ bs.map Named.name := by
    intro name hname
    obtain ⟨a, ha, rfl⟩ := List.mem_map.1 hname
    obtain ⟨v, hv, -⟩ := h a ha
    exact List.mem_map.2 ⟨_, Named.mem_of_find?_eq_some hv, rfl⟩
  have hperm : (as.map Named.name).Perm (bs.map Named.name) := by
    apply (List.subperm_of_subset has hsubset).perm_of_length_le
    simp [hlength]
  intro b hb
  have hname : b.name ∈ as.map Named.name := hperm.mem_iff.2 (List.mem_map.2 ⟨b, hb, rfl⟩)
  obtain ⟨v, hv⟩ := Named.exists_find? hname
  have hmem := Named.mem_of_find?_eq_some hv
  refine ⟨v, hv, ?_⟩
  -- the column found is found to be equal to one of its name, and this can only be `b`
  obtain ⟨w, hw, hequal⟩ := h _ hmem
  have hfound : Named.find? b.name bs = some b.value := (Named.mem_iff_find? hbs).1 hb
  rw [hfound, Option.some_inj] at hw
  rw [← ih _ hmem b hb, hw]
  exact hequal

theorem equal_int (v : Value) (b : Int64) : v.equal (.int b) = (Value.int b).equal v := by
  have hleft : v.equal (.int b) = decide (v.compare? (.int b) = some .eq) := by
    cases v <;> rfl
  rw [hleft]
  exact decide_eq_decide.2 (compare?_eq_comm v (.int b))

theorem equal_float (v : Value) (y : Double) : v.equal (.float y) = (Value.float y).equal v := by
  have hleft : v.equal (.float y) = decide (v.compare? (.float y) = some .eq) := by
    cases v <;> rfl
  rw [hleft]
  exact decide_eq_decide.2 (compare?_eq_comm v (.float y))

theorem equal_comm (hv : v.Each Keyed) (hw : w.Each Keyed) : v.equal w = w.equal v := by
  induction v using inductParts generalizing w with
  | int a => exact (equal_int w a).symm
  | float x => exact (equal_float w x).symm
  | null | bool | string | param =>
      cases w with
      | int b => exact equal_int _ b
      | float y => exact equal_float _ y
      | null | bool | string | list | document | param =>
          first | rfl | exact decide_eq_decide.2 eq_comm
  | list items ih =>
      cases w with
      | list others =>
          rw [each_list] at hv hw
          change equalItems items others = equalItems others items
          apply equalItems_comm
          intro v hmem w hmem'
          exact ih v hmem (hv.2 v hmem) (hw.2 w hmem')
      | int b => exact equal_int _ b
      | float y => exact equal_float _ y
      | null | bool | string | document | param => rfl
  | document columns ih =>
      cases w with
      | document others =>
          rw [each_document] at hv hw
          have hcolumns : ∀ a ∈ columns, ∀ b ∈ others,
              a.value.equal b.value = b.value.equal a.value := by
            intro a ha b hb
            exact ih a ha (hv.2 a ha) (hw.2 b hb)
          have hswapped : ∀ b ∈ others, ∀ a ∈ columns,
              b.value.equal a.value = a.value.equal b.value := by
            intro b hb a ha
            exact (hcolumns a ha b hb).symm
          rw [equal_document, equal_document, Bool.eq_iff_iff, Bool.and_eq_true, Bool.and_eq_true,
            decide_eq_true_iff, decide_eq_true_iff]
          constructor
          · rintro ⟨hlength, hwithin⟩
            exact ⟨hlength.symm, columnsWithin_swap hv.1 hw.1 hlength hcolumns hwithin⟩
          · rintro ⟨hlength, hwithin⟩
            exact ⟨hlength.symm, columnsWithin_swap hw.1 hv.1 hlength hswapped hwithin⟩
      | int b => exact equal_int _ b
      | float y => exact equal_float _ y
      | null | bool | string | list | param => rfl

def Numeric : Value → Prop
  | .float x => x.isNaN = false
  | _ => True

theorem equalItems_self {items : List Value} (ih : ∀ v ∈ items, v.equal v = true) :
    equalItems items items = true := by
  induction items with
  | nil => rfl
  | cons v vs ihs =>
      rw [List.forall_mem_cons] at ih
      rw [equalItems, ih.1, ihs ih.2]
      rfl

theorem equal_self (hv : v.Each Keyed) (hnumeric : v.Each Numeric) : v.equal v = true := by
  induction v using inductParts with
  | null => rfl
  | bool | string | param => exact decide_eq_true rfl
  | int a => exact decide_eq_true (by simp [compare?])
  | float x => exact decide_eq_true (of_decide_eq_true (Double.same_self hnumeric))
  | list items ih =>
      rw [each_list] at hv hnumeric
      exact equalItems_self fun v hmem => ih v hmem (hv.2 v hmem) (hnumeric.2 v hmem)
  | document columns ih =>
      rw [each_document] at hv hnumeric
      rw [equal_document, Bool.and_eq_true, columnsWithin_iff]
      refine ⟨decide_eq_true rfl, fun c hc => ?_⟩
      have hfound : Named.find? c.name columns = some c.value := (Named.mem_iff_find? hv.1).1 hc
      exact ⟨c.value, hfound, ih c hc (hv.2 c hc) (hnumeric.2 c hc)⟩

end Sides

section Comparing

open Store (hasKey)

theorem keyed_filed (hw : w.Each Keyed) : w.filed.Each Keyed := by
  induction w using inductParts with
  | null | bool | int | float | string | param => trivial
  | list items ih =>
      rw [each_list] at hw
      rw [filed, filedItems_eq_map, each_list, List.forall_mem_map]
      exact ⟨trivial, fun v hv => ih v hv (hw.2 v hv)⟩
  | document columns ih =>
      rw [each_document] at hw
      have hnodup : ((filedColumns columns).map Named.name).Nodup := by
        rw [map_name_filedColumns]
        exact hw.1
      rw [filed, each_document]
      refine ⟨Named.nodup_ranked hnodup, ?_⟩
      simp only [Named.mem_ranked, filedColumns_eq_map, List.forall_mem_map]
      exact fun c hc => ih c hc (hw.2 c hc)

theorem equal_filed_right (hv : v.Each Keyed) (hw : w.Each Keyed) :
    v.equal w.filed = v.equal w := by
  calc v.equal w.filed
    _ = w.filed.equal v := equal_comm hv (keyed_filed hw)
    _ = w.equal v := equal_filed w v
    _ = v.equal w := equal_comm hw hv

theorem compare?_filed_right (v w : Value) : v.compare? w.filed = v.compare? w := by
  cases v <;> cases w <;> rfl

theorem any_congr_of_mem {ws : List Value} {f g : Value → Bool} (h : ∀ u ∈ ws, f u = g u) :
    ws.any f = ws.any g := by
  induction ws with
  | nil => rfl
  | cons u us ih =>
      rw [List.forall_mem_cons] at h
      rw [List.any_cons, List.any_cons, h.1, ih h.2]

theorem any_equal_filed {ws : List Value} (hv : v.Each Keyed) (hws : ∀ w ∈ ws, w.Each Keyed) :
    (filedItems ws).any (v.equal ·) = ws.any (v.equal ·) := by
  rw [filedItems_eq_map, List.any_map]
  exact any_congr_of_mem fun w hw => equal_filed_right hv (hws w hw)

theorem holds_filed_right (k : Comparison) (hv : v.Each Keyed) (hw : w.Each Keyed) :
    k.holds v w.filed = k.holds v w := by
  cases k with
  | equal => exact equal_filed_right hv hw
  | isIn =>
      cases w with
      | list ws => exact any_equal_filed hv (each_list.1 hw).2
      | null | bool | int | float | string | document | param => exact equal_filed_right hv hw
  | like => cases v <;> cases w <;> rfl
  | greater | less => simp only [Comparison.holds, compare?_filed_right]
  | greaterEqual | lessEqual => simp only [Comparison.holds, compare?_filed_right]
  | between =>
      match w with
      | .list [low, high] =>
          simp only [filed, filedItems, Comparison.holds, compare?_filed_right]
      | .list [] | .list [_] | .list (_ :: _ :: _ :: _) => rfl
      | .null | .bool _ | .int _ | .float _ | .string _ | .document _ | .param _ => rfl

theorem Reordered.holds_eq {v' w' : Value} (hv : v.Each Keyed) (hw : w.Each Keyed)
    (hv' : v.Reordered v') (hw' : w.Reordered w') (k : Comparison) :
    k.holds v' w' = k.holds v w := by
  calc k.holds v' w'
    _ = k.holds v'.filed w' := (holds_filed k v' w').symm
    _ = k.holds v.filed w' := by rw [hv'.filed_eq hv]
    _ = k.holds v w' := holds_filed k v w'
    _ = k.holds v w'.filed := (holds_filed_right k hv (hw'.keyed hw)).symm
    _ = k.holds v w.filed := by rw [hw'.filed_eq hw]
    _ = k.holds v w := holds_filed_right k hv hw

theorem hasKey_of_find? {name : String} {r : Record} (h : r.find? name = some v) (w : Value) :
    hasKey ⟨name, w⟩ r = v.equal w := by
  simp only [hasKey, h]

/-- Between values in which no document has a column name twice, equality is the same from both
sides, and no order of columns changes it; a value without a NaN is equal to itself. So neither the
order in which columns were written nor the side of the stored value counts for the comparisons
with `=` and `in` and for the key of an update. -/
theorem equality_free_of_order (hv : v.Each Keyed) (hw : w.Each Keyed) :
    v.equal w = w.equal v ∧
    (v.Each Numeric → v.equal v = true) ∧
    (∀ v' w', v.Reordered v' → w.Reordered w' →
      v'.equal w' = v.equal w ∧ ∀ k : Comparison, k.holds v' w' = k.holds v w) ∧
    (Comparison.equal.holds v w = w.equal v ∧
      ∀ ws, w = .list ws → Comparison.isIn.holds v w = ws.any fun u => u.equal v) ∧
    ∀ (name : String) (r : Record), r.find? name = some v →
      hasKey ⟨name, w⟩ r = w.equal v ∧
      ∀ v' w' (r' : Record), v.Reordered v' → w.Reordered w' → r'.find? name = some v' →
        hasKey ⟨name, w'⟩ r' = hasKey ⟨name, w⟩ r := by
  have hcomm := equal_comm hv hw
  refine ⟨hcomm, equal_self hv, ?_, ⟨hcomm, ?_⟩, ?_⟩
  · intro v' w' hv' hw'
    exact ⟨Reordered.holds_eq hv hw hv' hw' .equal, Reordered.holds_eq hv hw hv' hw'⟩
  · rintro ws rfl
    exact any_congr_of_mem fun u hu => equal_comm hv ((each_list.1 hw).2 u hu)
  · intro name r hr
    rw [hasKey_of_find? hr]
    refine ⟨hcomm, fun v' w' r' hv' hw' hr' => ?_⟩
    rw [hasKey_of_find? hr']
    exact Reordered.holds_eq hv hw hv' hw' .equal

def measured : Value :=
  .document [⟨"size", .list [.document [⟨"x", .int 2⟩, ⟨"y", .null⟩]]⟩, ⟨"unit", .string "m"⟩]

def remeasured : Value :=
  .document [⟨"unit", .string "m"⟩,
    ⟨"size", .list [.document [⟨"y", .null⟩,
      ⟨"x", .float ⟨false, 0x4000000000000000, by decide⟩⟩]]⟩]

def shuffled : Value :=
  .document [⟨"unit", .string "m"⟩,
    ⟨"size", .list [.document [⟨"y", .null⟩, ⟨"x", .int 2⟩]]⟩]

theorem measured_reordered : measured.Reordered shuffled := by
  have hinner : Reordered (.document [⟨"x", .int 2⟩, ⟨"y", .null⟩])
      (.document [⟨"y", .null⟩, ⟨"x", .int 2⟩]) := .columns (List.Perm.swap _ _ _)
  exact .trans (.column [] [⟨"unit", .string "m"⟩] "size" (.item [] [] hinner))
    (.columns (List.Perm.swap _ _ _))

theorem measured_free_of_order :
    measured.Each Keyed ∧ remeasured.Each Keyed ∧ measured.Each Numeric ∧
    measured.equal remeasured = true ∧ remeasured.equal measured = true ∧
    measured.equal measured = true ∧ shuffled.equal remeasured = true ∧
    hasKey ⟨"key", remeasured⟩ ⟨"entity", [⟨"key", shuffled⟩]⟩ = true := by
  have hv : measured.Each Keyed := by simp [measured, Each, ItemsEach, ColumnsEach, Keyed]
  have hw : remeasured.Each Keyed := by simp [remeasured, Each, ItemsEach, ColumnsEach, Keyed]
  have hnumeric : measured.Each Numeric := by simp [measured, Each, ItemsEach, ColumnsEach, Numeric]
  have hequal : measured.equal remeasured = true := by decide +kernel
  obtain ⟨hcomm, hself, hreordered, -, hkey⟩ := equality_free_of_order hv hw
  obtain ⟨hheld, hrecords⟩ := hkey "key" ⟨"entity", [⟨"key", measured⟩]⟩ rfl
  have hshuffled := (hreordered shuffled remeasured measured_reordered (.refl _)).1
  have hfound := hrecords shuffled remeasured ⟨"entity", [⟨"key", shuffled⟩]⟩ measured_reordered
    (.refl _) rfl
  refine ⟨hv, hw, hnumeric, hequal, hcomm.symm.trans hequal, hself hnumeric,
    hshuffled.trans hequal, ?_⟩
  rw [hfound, hheld, ← hcomm, hequal]

end Comparing

end Value
end RecordQuery
