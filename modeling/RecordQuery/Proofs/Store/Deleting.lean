import RecordQuery.Proofs.Store.Met
import RecordQuery.Proofs.Store.Sorting

namespace RecordQuery

def Deletion.selection (d : Deletion) : Selection := ⟨d.entity, [], d.condition, [], 0, 0⟩

namespace Store

open Condition (Told met holdsIfAny)

variable {s : Store} {d : Deletion} {rows rs : List Record} {es : List Entry} {e : QueryError}

theorem sortBy_of_ties {order : Record → Record → Ordering} (h : ∀ a b, order a b = .eq)
    (rs : List Record) : sortBy order rs = rs := by
  have hties : TotalPreorder order fun _ => True := by
    refine ⟨fun _ => h _ _, fun _ _ => ?_, fun _ _ _ _ _ => ?_⟩
    · rw [h, h, Ordering.swap_eq]
    · rw [h]
      decide
  have hkept : ∀ r : Record, ∀ ss : List Record, ss.filter (fun b => order r b = .eq) = ss := by
    intro r ss
    exact List.filter_eq_self.2 fun b _ => decide_eq_true (h r b)
  cases rs with
  | nil => rfl
  | cons r rs =>
      have hstable := @filter_sortBy order _ r (r :: rs) hties trivial fun _ _ => trivial
      rw [hkept, hkept] at hstable
      exact hstable

theorem window_zero (rs : List Record) : window 0 0 rs = rs := by
  simp [window]

theorem select_selection (s : Store) (d : Deletion) :
    s.select d.selection = matching d.condition (s.records d.entity) := by
  have hproject : ∀ r : Record, r.project [] = r := fun r => if_pos rfl
  unfold select Deletion.selection
  cases matching d.condition (s.records d.entity) with
  | error e => rfl
  | ok rows =>
      have hsort : sortBy (orderBy []) rows = rows := sortBy_of_ties (fun _ _ => rfl) rows
      change Except.ok ((window 0 0 (sortBy (orderBy []) rows)).map fun r => r.project []) = .ok rows
      simp only [hsort, window_zero, hproject, List.map_id']

theorem erase_nil (hit : Entry → Bool) (es : List Entry) :
    erase [] (es.map hit) es = es.filter fun x => !hit x := by
  induction es with
  | nil => rfl
  | cons x es ih =>
      rw [List.map_cons, erase, List.filter_cons, ih]
      cases hit x <;> simp

theorem erase_of_ne_nil {fields : List String} (h : fields ≠ []) (hit : Entry → Bool)
    (es : List Entry) : erase fields (es.map hit) es =
      es.map fun x => if hit x then { x with record := without fields x.record } else x := by
  induction es with
  | nil => rfl
  | cons x es ih =>
      rw [List.map_cons, erase, List.map_cons, ih]
      cases hit x <;> simp [h]

theorem delete_of_hits_error (h : hits d.condition (s.entries d.entity) = .error e) :
    s.delete d = (.error e, s) := by
  unfold delete
  cases hentries : s.entries? d.entity with
  | none =>
      rw [entries, hentries] at h
      cases h
  | some es =>
      rw [entries, hentries, Option.getD_some] at h
      simp only [h]

theorem exists_delete_of_hits {hs : List Bool} (h : hits d.condition (s.entries d.entity) = .ok hs) :
    ∃ t, s.delete d = (.ok (), t) ∧
      t.entries d.entity = erase d.fields hs (s.entries d.entity) := by
  unfold delete
  cases hentries : s.entries? d.entity with
  | none =>
      have hes : s.entries d.entity = [] := by rw [entries, hentries, Option.getD_none]
      rw [hes] at h ⊢
      cases h
      exact ⟨s, rfl, hes⟩
  | some es =>
      have hes : s.entries d.entity = es := by rw [entries, hentries, Option.getD_some]
      rw [hes] at h ⊢
      simp only [h]
      exact ⟨_, rfl, entries_withEntries_self s _ _⟩

theorem exists_delete (h : Told d.condition (s.records d.entity)) :
    ∃ t, s.delete d = (.ok (), t) ∧ t.entries d.entity = erase d.fields
      ((s.entries d.entity).map fun x => met d.condition x.record) (s.entries d.entity) :=
  exists_delete_of_hits (hits_of_told h)

theorem told_of_delete {t : Store} (h : s.delete d = (.ok (), t)) :
    Told d.condition (s.records d.entity) := by
  cases hhits : hits d.condition (s.entries d.entity) with
  | error e =>
      rw [delete_of_hits_error hhits] at h
      cases h
  | ok hs =>
      rw [hits_eq_mapM] at hhits
      exact Outcome.exists_ok_of_mapM hhits

theorem delete_congr {condition : Option Condition}
    (h : ∀ r ∈ s.records d.entity, holdsIfAny condition r = holdsIfAny d.condition r) :
    s.delete { d with condition := condition } = s.delete d := by
  unfold delete
  cases hentries : s.entries? d.entity with
  | none => rfl
  | some es =>
      have hhits : hits condition es = hits d.condition es := by
        refine hits_congr fun x hx => h x.record ?_
        rw [records, entries, hentries, Option.getD_some]
        exact List.mem_map_of_mem hx
      simp only [hhits]

theorem delete_eq_error : (s.delete d).1 = .error e ↔ s.select d.selection = .error e := by
  have hselect : s.select d.selection = .error e ↔
      hits d.condition (s.entries d.entity) = .error e := by
    rw [select_selection, hits_eq_error]
    rfl
  rw [hselect]
  cases hhits : hits d.condition (s.entries d.entity) with
  | error e' => simp [delete_of_hits_error hhits]
  | ok hs =>
      obtain ⟨t, ht, -⟩ := exists_delete_of_hits hhits
      simp [ht]

theorem matching_unmet {condition : Option Condition} (h : Told condition rs)
    (hunmet : ∀ r ∈ rs, met condition r = false) : matching condition rs = .ok [] := by
  rw [matching_of_told h, List.filter_eq_nil_iff.2 fun r hr => by rw [hunmet r hr]; decide]

theorem execute_delete_eq_error :
    (backend.execute (.delete d) s).1 = .error e ↔ (s.delete d).1 = .error e :=
  Outcome.map_eq_error

theorem execute_delete {t : Store} (h : s.delete d = (.ok (), t)) :
    backend.execute (.delete d) s = (.ok [], t) := by
  change mapOutcome (fun _ => []) (s.delete d) = (.ok [], t)
  rw [h]
  rfl

/-- A deletion fails exactly where the selection of the same records does, with the same error.
Where both succeed, a deletion without fields leaves the records that the selection did not return,
in order and each with its time to live, and of these the selection returns none; a deletion of
fields takes the columns of their names from each record that the selection returned. -/
theorem deletion_takes_selected (s : Store) (d : Deletion) :
    (∀ e, (backend.execute (.delete d) s).1 = .error e ↔
      (backend.execute (.select d.selection) s).1 = .error e) ∧
    ∀ rows, (backend.execute (.select d.selection) s).1 = .ok rows →
      (backend.execute (.delete d) s).1 = .ok [] ∧
      rows = (s.records d.entity).filter (· ∈ rows) ∧
      (d.fields = [] →
        (backend.execute (.delete d) s).2.entries d.entity =
          (s.entries d.entity).filter (·.record ∉ rows) ∧
        (backend.execute (.select d.selection) (backend.execute (.delete d) s).2).1 = .ok []) ∧
      (d.fields ≠ [] →
        (backend.execute (.delete d) s).2.entries d.entity =
          (s.entries d.entity).map fun x =>
            if x.record ∈ rows then
              ⟨⟨x.record.entity, x.record.columns.filter (·.name ∉ d.fields)⟩, x.ttl⟩
            else x) := by
  refine ⟨fun e => execute_delete_eq_error.trans delete_eq_error, fun rows hrows => ?_⟩
  have hmatching : matching d.condition (s.records d.entity) = .ok rows := by
    rw [← select_selection]
    exact hrows
  have htold := told_of_matching hmatching
  rw [matching_of_told htold, Except.ok.injEq] at hmatching
  have hmem : ∀ r ∈ s.records d.entity, decide (r ∈ rows) = met d.condition r := by
    intro r hr
    rw [Bool.eq_iff_iff, decide_eq_true_iff, ← hmatching, List.mem_filter, and_iff_right hr]
  have hentry : ∀ x ∈ s.entries d.entity, decide (x.record ∈ rows) = met d.condition x.record :=
    fun x hx => hmem x.record (List.mem_map_of_mem hx)
  obtain ⟨t, ht, hentries⟩ := exists_delete htold
  rw [execute_delete ht]
  refine ⟨rfl, ?_, fun hfields => ?_, fun hfields => ?_⟩
  · exact hmatching.symm.trans (List.filter_congr fun r hr => (hmem r hr).symm)
  · rw [hfields, erase_nil] at hentries
    constructor
    · rw [hentries]
      exact List.filter_congr fun x hx => by rw [decide_not, hentry x hx]
    · -- what is left is met by nothing, so the selection finds nothing
      have hleft : ∀ r ∈ t.records d.entity, r ∈ s.records d.entity ∧ met d.condition r = false := by
        intro r hr
        rw [records, hentries] at hr
        obtain ⟨x, hx, rfl⟩ := List.mem_map.1 hr
        rw [List.mem_filter, Bool.not_eq_true'] at hx
        exact ⟨List.mem_map_of_mem hx.1, hx.2⟩
      change t.select d.selection = .ok []
      rw [select_selection]
      exact matching_unmet (fun r hr => htold r (hleft r hr).1) fun r hr => (hleft r hr).2
  · rw [hentries, erase_of_ne_nil hfields]
    refine List.map_congr_left fun x hx => ?_
    rw [← hentry x hx]
    simp only [without, decide_eq_true_eq, List.contains_eq_mem, decide_not]

def paired : Store :=
  ⟨[⟨"a", [⟨⟨"a", [⟨"n", .int 1⟩, ⟨"m", .null⟩, ⟨"m", .bool true⟩]⟩, none⟩,
    ⟨⟨"a", [⟨"n", .int 2⟩, ⟨"m", .null⟩]⟩, some ⟨3⟩⟩,
    ⟨⟨"a", [⟨"n", .int 1⟩, ⟨"m", .null⟩, ⟨"m", .bool true⟩]⟩, none⟩]⟩]⟩

def unpairing (fields : List String) : Deletion :=
  ⟨"a", fields, some (.compare .equal ⟨"n", .int 1⟩)⟩

theorem paired_taken :
    (backend.execute (.select (unpairing []).selection) paired).1 =
      .ok (List.replicate 2 ⟨"a", [⟨"n", .int 1⟩, ⟨"m", .null⟩, ⟨"m", .bool true⟩]⟩) ∧
    (backend.execute (.delete (unpairing [])) paired).2.entries "a" =
      [⟨⟨"a", [⟨"n", .int 2⟩, ⟨"m", .null⟩]⟩, some ⟨3⟩⟩] ∧
    (backend.execute (.delete (unpairing ["m"])) paired).2.entries "a" =
      [⟨⟨"a", [⟨"n", .int 1⟩]⟩, none⟩, ⟨⟨"a", [⟨"n", .int 2⟩, ⟨"m", .null⟩]⟩, some ⟨3⟩⟩,
        ⟨⟨"a", [⟨"n", .int 1⟩]⟩, none⟩] := by
  refine ⟨rfl, ?_, ?_⟩
  · exact (((deletion_takes_selected paired (unpairing [])).2 _ rfl).2.2.1 rfl).1
  · exact ((deletion_takes_selected paired (unpairing ["m"])).2 _ rfl).2.2.2 (by decide)

end Store

end RecordQuery
