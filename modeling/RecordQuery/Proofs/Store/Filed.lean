import RecordQuery.Proofs.Condition.Meaning
import RecordQuery.Proofs.Condition.Normal
import RecordQuery.Proofs.Store.Met
import RecordQuery.Proofs.Store.Sorting
import RecordQuery.Proofs.Value.Filed

/-!
Selections on records with their columns in rising order of the names. Where no name comes twice, a
field is looked up with the same result in any order of the columns, and so a selection finds the
same records, in the same order, and returns the same fields of them.
-/

namespace RecordQuery

open Named (ranked)
open Value (Keyed)

namespace Record

variable {r : Record}

def document (r : Record) : Value := .document r.columns

def filed (r : Record) : Record := ⟨r.entity, ranked (Value.filedColumns r.columns)⟩

def names (r : Record) : List String := r.columns.map Named.name

theorem toJson_document (r : Record) : r.document.toJson = r.toJson := rfl

theorem document_filed (r : Record) : r.filed.document = r.document.filed := by
  rw [document, document, Value.filed]
  rfl

theorem filed_filed (r : Record) : r.filed.filed = r.filed := by
  have hdocument := r.document.filed_filed
  rw [← document_filed, ← document_filed] at hdocument
  exact congrArg (Record.mk r.entity) (Value.document.inj hdocument)

theorem toJson_filed (h : r.document.Each Keyed) : r.filed.toJson = r.toJson := by
  rw [← toJson_document, ← toJson_document, document_filed, Value.toJson_filed h]

theorem keyed_of_descend {v w : Value} {names : List String} (h : v.Each Keyed)
    (hw : descend v names = some w) : w.Each Keyed := by
  induction names generalizing v with
  | nil =>
      cases hw
      exact h
  | cons name names ih =>
      unfold descend at hw
      split at hw
      · split at hw
        · next hinner =>
            rw [Value.each_document] at h
            exact ih (h.2 _ (Named.mem_of_find?_eq_some hinner)) hw
        · cases hw
      · cases hw

theorem descend_filed {v : Value} (h : v.Each Keyed) (names : List String) :
    descend v.filed names = (descend v names).map Value.filed := by
  induction names generalizing v with
  | nil => rfl
  | cons name names ih =>
      cases v with
      | document columns =>
          rw [Value.each_document] at h
          rw [Value.filed, descend, descend, Value.find?_ranked_filedColumns h.1]
          cases hinner : Named.find? name columns with
          | none => rfl
          | some inner => exact ih (h.2 _ (Named.mem_of_find?_eq_some hinner))
      | null | bool | int | float | string | list | param => rfl

theorem keyed_of_lookup {path : String} {v : Value} (h : r.document.Each Keyed)
    (hv : r.lookup path = some v) : v.Each Keyed := by
  unfold lookup at hv
  split at hv
  · next hfound =>
      cases hv
      exact (Value.each_document.1 h).2 _ (Named.mem_of_find?_eq_some hfound)
  · exact keyed_of_descend h hv

theorem lookup_filed (h : r.document.Each Keyed) (path : String) :
    r.filed.lookup path = (r.lookup path).map Value.filed := by
  have hfind : r.filed.find? path = (r.find? path).map Value.filed :=
    Value.find?_ranked_filedColumns (Value.each_document.1 h).1 path
  have hdescend := descend_filed h (segments path)
  rw [← document_filed] at hdescend
  unfold lookup
  rw [hfind]
  cases r.find? path with
  | none => exact hdescend
  | some v => rfl

theorem project_filed (h : r.document.Each Keyed) {fields : List String} (hfields : fields ≠ []) :
    r.filed.project fields = ⟨r.entity, Value.filedColumns (r.project fields).columns⟩ := by
  simp only [project, if_neg hfields, lookup_filed h, Value.filedColumns_eq_map, List.map_filterMap,
    Option.map_map]
  rfl

theorem filed_project_filed (h : r.document.Each Keyed) (fields : List String) :
    (r.filed.project fields).filed = (r.project fields).filed := by
  by_cases hfields : fields = []
  · simp only [project, if_pos hfields, filed_filed]
  · rw [project_filed h hfields, filed, filed,
      Value.filedColumns_filedColumns fun c _ => c.value.filed_filed]
    simp only [project, if_neg hfields]

theorem names_project_filed (h : r.document.Each Keyed) {fields : List String}
    (hfields : fields ≠ []) : (r.filed.project fields).names = (r.project fields).names := by
  rw [project_filed h hfields, names, Value.map_name_filedColumns, names]

theorem toJson_project_filed (h : r.document.Each Keyed) (fields : List String) :
    (r.filed.project fields).toJson = (r.project fields).toJson := by
  by_cases hfields : fields = []
  · simp only [project, if_pos hfields, toJson_filed h]
  · have hvalues : ∀ c ∈ (r.project fields).columns, c.value.filed.toJson = c.value.toJson := by
      intro c hc
      simp only [project, if_neg hfields, List.mem_filterMap, Option.map_eq_some_iff] at hc
      obtain ⟨field, -, v, hv, rfl⟩ := hc
      exact Value.toJson_filed (keyed_of_lookup h hv)
    rw [project_filed h hfields, toJson, toJson, Value.toJsonFields_filedColumns hvalues]

end Record

namespace Condition

variable {r r' : Record}

theorem holds_congr (h : ∀ k column, comparisonHolds r k column = comparisonHolds r' k column)
    (c : Condition) : c.holds r = c.holds r' := by
  induction c using inductParts with
  | compare k column => exact h k column
  | group k children ih =>
      induction children with
      | nil => rw [holds_group_nil, holds_group_nil]
      | cons c cs ihs =>
          rw [List.forall_mem_cons] at ih
          rw [holds_group_cons, holds_group_cons, ih.1, ihs ih.2]
  | not inner ih => rw [holds, holds, ih]

theorem comparisonHolds_filed (h : r.document.Each Keyed) (k : Comparison) (column : Column) :
    comparisonHolds r.filed k column = comparisonHolds r k column := by
  unfold comparisonHolds
  split
  · rfl
  · rw [r.lookup_filed h]
    cases r.lookup column.name with
    | none => rfl
    | some v => exact congrArg _ (Value.holds_filed k v column.value)

theorem holdsIfAny_filed (h : r.document.Each Keyed) (condition : Option Condition) :
    holdsIfAny condition r.filed = holdsIfAny condition r := by
  cases condition with
  | none => rfl
  | some c => exact holds_congr (comparisonHolds_filed h) c

end Condition

namespace Store

open Condition (holdsIfAny)

variable {s t : Store} {q : Selection} {rs rows : List Record} {f : Record → Record}

section Map

theorem matching_map {condition : Option Condition}
    (h : ∀ r ∈ rs, holdsIfAny condition (f r) = holdsIfAny condition r) :
    matching condition (rs.map f) = (matching condition rs).map (List.map f) := by
  induction rs with
  | nil => rfl
  | cons r rs ih =>
      rw [List.forall_mem_cons] at h
      rw [List.map_cons, matching, matching, h.1, ih h.2]
      cases holdsIfAny condition r with
      | error e => rfl
      | ok hit =>
          cases matching condition rs with
          | error e => rfl
          | ok hits => cases hit <;> rfl

variable {order : Record → Record → Ordering}

theorem settle_map {r : Record} (h : ∀ s ∈ rs, order (f r) (f s) = order r s) :
    settle order (f r) (rs.map f) = (settle order r rs).map f := by
  induction rs with
  | nil => rfl
  | cons s ss ih =>
      rw [List.forall_mem_cons] at h
      rw [List.map_cons, settle, settle, h.1, ih h.2]
      split <;> rfl

theorem sortBy_map (h : ∀ a ∈ rs, ∀ b ∈ rs, order (f a) (f b) = order a b) :
    sortBy order (rs.map f) = (sortBy order rs).map f := by
  induction rs using List.reverseRecOn with
  | nil => rfl
  | append_singleton rs r ih =>
      have hrs : ∀ a ∈ rs, ∀ b ∈ rs, order (f a) (f b) = order a b := fun a ha b hb =>
        h a (List.mem_append_left _ ha) b (List.mem_append_left _ hb)
      have hr : ∀ s ∈ (sortBy order rs).reverse, order (f r) (f s) = order r s := by
        intro s hs
        have hmem := (sortBy_perm order rs).mem_iff.1 (List.mem_reverse.1 hs)
        exact h r (List.mem_append_right _ (List.mem_singleton_self r)) s
          (List.mem_append_left _ hmem)
      rw [List.map_append, List.map_singleton, sortBy_concat, sortBy_concat, ih hrs,
        ← List.map_reverse, settle_map hr, List.map_reverse]

theorem window_map (skip limit : UInt64) (rs : List Record) :
    window skip limit (rs.map f) = (window skip limit rs).map f := by
  unfold window
  split
  · rw [List.map_drop]
  · rw [List.map_take, List.map_drop]

end Map

def found (s : Store) (q : Selection) : Outcome (List Record) :=
  (matching q.condition (s.records q.entity)).map fun rows =>
    window q.skip q.limit (sortBy (orderBy q.sorts) rows)

theorem select_eq_found (s : Store) (q : Selection) :
    s.select q = (s.found q).map (List.map fun r => r.project q.fields) := by
  unfold select found
  cases matching q.condition (s.records q.entity) <;> rfl

theorem window_sublist (skip limit : UInt64) (rs : List Record) :
    (window skip limit rs).Sublist rs := by
  unfold window
  split
  · exact List.drop_sublist _ rs
  · exact (List.take_sublist _ _).trans (List.drop_sublist _ rs)

theorem subset_of_matching {condition : Option Condition} (h : matching condition rs = .ok rows) :
    rows ⊆ rs := by
  rw [matching_eq_mapM] at h
  obtain ⟨_, -, rfl⟩ := Outcome.map_eq_ok.1 h
  exact List.filter_subset_self rs

theorem subset_of_found (h : s.found q = .ok rows) : rows ⊆ s.records q.entity := by
  obtain ⟨hits, hhits, rfl⟩ := Outcome.map_eq_ok.1 h
  refine List.Subset.trans ?_ (subset_of_matching hhits)
  refine List.Subset.trans (window_sublist q.skip q.limit _).subset ?_
  exact (sortBy_perm (orderBy q.sorts) hits).subset

theorem order_filed {a b : Record} (ha : a.document.Each Keyed) (hb : b.document.Each Keyed)
    (k : SortKey) : k.order a.filed b.filed = k.order a b := by
  unfold SortKey.order
  rw [a.lookup_filed ha, b.lookup_filed hb, Value.orderAbsentFirst_filed]

theorem orderBy_filed {a b : Record} (ha : a.document.Each Keyed) (hb : b.document.Each Keyed)
    (keys : List SortKey) : orderBy keys a.filed b.filed = orderBy keys a b := by
  induction keys with
  | nil => rfl
  | cons k ks ih => rw [orderBy, orderBy, order_filed ha hb, ih]

theorem found_filed (hkeyed : ∀ r ∈ s.records q.entity, r.document.Each Keyed)
    (h : t.records q.entity = (s.records q.entity).map Record.filed) :
    t.found q = (s.found q).map (List.map Record.filed) := by
  unfold found
  rw [h, matching_map fun r hr => Condition.holdsIfAny_filed (hkeyed r hr) q.condition]
  cases hrows : matching q.condition (s.records q.entity) with
  | error e => rfl
  | ok rows =>
      have hsubset := subset_of_matching hrows
      have hwindow : window q.skip q.limit (sortBy (orderBy q.sorts) (rows.map Record.filed)) =
          (window q.skip q.limit (sortBy (orderBy q.sorts) rows)).map Record.filed := by
        rw [← window_map, sortBy_map]
        intro a ha b hb
        exact orderBy_filed (hkeyed a (hsubset ha)) (hkeyed b (hsubset hb)) q.sorts
      exact congrArg Except.ok hwindow

theorem select_filed {β : Type} {g : Record → β}
    (hg : ∀ r : Record, r.document.Each Keyed → g (r.filed.project q.fields) = g (r.project q.fields))
    (hkeyed : ∀ r ∈ s.records q.entity, r.document.Each Keyed)
    (h : t.records q.entity = (s.records q.entity).map Record.filed) :
    (t.select q).map (List.map g) = (s.select q).map (List.map g) := by
  rw [select_eq_found, select_eq_found, found_filed hkeyed h]
  cases hrows : s.found q with
  | error e => rfl
  | ok rows =>
      have hsame : ∀ r ∈ rows, g (r.filed.project q.fields) = g (r.project q.fields) :=
        fun r hr => hg r (hkeyed r (subset_of_found hrows hr))
      simpa [Except.map] using hsame

end Store

end RecordQuery
