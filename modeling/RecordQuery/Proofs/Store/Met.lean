import RecordQuery.Proofs.Outcome.Collected
import RecordQuery.Proofs.Store.Step

namespace RecordQuery

namespace Condition

/-- Whether a condition holds of a record; not where that cannot be told. -/
def met (condition : Option Condition) (r : Record) : Bool :=
  match holdsIfAny condition r with
  | .ok hit => hit
  | .error _ => false

def Told (condition : Option Condition) (rs : List Record) : Prop :=
  ∀ r ∈ rs, ∃ hit, holdsIfAny condition r = .ok hit

variable {condition : Option Condition} {r : Record} {rs : List Record} {hit : Bool}

theorem met_of_ok (h : holdsIfAny condition r = .ok hit) : met condition r = hit := by
  rw [met, h]

theorem Told.holdsIfAny_eq (h : Told condition rs) :
    ∀ r ∈ rs, holdsIfAny condition r = .ok (met condition r) := by
  intro r hr
  obtain ⟨hit, hhit⟩ := h r hr
  rw [hhit, met_of_ok hhit]

end Condition

namespace Store

open Condition (Told met holdsIfAny)

variable {condition : Option Condition} {rs rows : List Record} {es : List Entry} {e : QueryError}

theorem matching_eq_mapM (condition : Option Condition) (rs : List Record) :
    matching condition rs =
      (rs.mapM (holdsIfAny condition)).map fun _ => rs.filter (met condition) := by
  induction rs with
  | nil => rfl
  | cons r rs ih =>
      rw [matching, List.mapM_cons, ih]
      cases hhit : holdsIfAny condition r with
      | error e => rfl
      | ok hit =>
          rw [List.filter_cons, Condition.met_of_ok hhit]
          cases rs.mapM (holdsIfAny condition) with
          | error e => rfl
          | ok hits => rfl

theorem hits_eq_mapM (condition : Option Condition) (es : List Entry) :
    hits condition es = (es.map Entry.record).mapM (holdsIfAny condition) := by
  induction es with
  | nil => rfl
  | cons x es ih =>
      rw [hits, List.map_cons, List.mapM_cons, ih]
      rfl

theorem matching_congr {other : Option Condition}
    (h : ∀ r ∈ rs, holdsIfAny condition r = holdsIfAny other r) :
    matching condition rs = matching other rs := by
  induction rs with
  | nil => rfl
  | cons r rs ih =>
      rw [List.forall_mem_cons] at h
      rw [matching, matching, h.1, ih h.2]

theorem select_congr {s : Store} {q : Selection}
    (h : ∀ r ∈ s.records q.entity, holdsIfAny condition r = holdsIfAny q.condition r) :
    s.select { q with condition := condition } = s.select q := by
  simp only [select, matching_congr h]

theorem hits_congr {other : Option Condition}
    (h : ∀ x ∈ es, holdsIfAny condition x.record = holdsIfAny other x.record) :
    hits condition es = hits other es := by
  induction es with
  | nil => rfl
  | cons x es ih =>
      rw [List.forall_mem_cons] at h
      rw [hits, hits, h.1, ih h.2]

theorem matching_of_told (h : Told condition rs) :
    matching condition rs = .ok (rs.filter (met condition)) := by
  rw [matching_eq_mapM, Outcome.mapM_eq_ok h.holdsIfAny_eq]
  rfl

theorem told_of_matching (h : matching condition rs = .ok rows) : Told condition rs := by
  rw [matching_eq_mapM] at h
  obtain ⟨hits, hhits, -⟩ := Outcome.map_eq_ok.1 h
  exact Outcome.exists_ok_of_mapM hhits

theorem hits_of_told (h : Told condition (es.map Entry.record)) :
    hits condition es = .ok (es.map fun x => met condition x.record) := by
  rw [hits_eq_mapM, Outcome.mapM_eq_ok h.holdsIfAny_eq, List.map_map]
  rfl

theorem select_eq_error {s : Store} {q : Selection} :
    s.select q = .error e ↔ matching q.condition (s.records q.entity) = .error e := by
  unfold select
  cases matching q.condition (s.records q.entity) with
  | error e' => rfl
  | ok rows => constructor <;> intro h <;> cases h

theorem hits_eq_error : hits condition es = .error e ↔
    matching condition (es.map Entry.record) = .error e := by
  rw [matching_eq_mapM, hits_eq_mapM, Outcome.map_eq_error]

end Store

end RecordQuery
