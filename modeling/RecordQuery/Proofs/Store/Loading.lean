import RecordQuery.Proofs.Outcome.Collected
import RecordQuery.Proofs.Value.Data
import RecordQuery.Store.Basic

namespace RecordQuery

namespace Store

variable {entity : String} {s : Store}

section Loads

theorem entryOfJson_eq_ok {row : Json} {x : Entry} : entryOfJson entity row = .ok x ↔
    ∃ columns, Value.ofJson row = .document columns ∧ x = ⟨⟨entity, columns⟩, none⟩ := by
  unfold entryOfJson
  split
  · next columns hrow => simp [hrow, eq_comm]
  · next hrow =>
      constructor
      · intro h
        cases h
      · rintro ⟨columns, hcolumns, -⟩
        exact absurd hcolumns (hrow columns)

theorem entriesOfJson_eq_ok {field : Named Json} {e : Named (List Entry)} :
    entriesOfJson field = .ok e ↔
      ∃ rows, field = ⟨e.name, .array rows⟩ ∧ rows.mapM (entryOfJson e.name) = .ok e.value := by
  obtain ⟨name, v⟩ := field
  unfold entriesOfJson
  split
  · next rows hrows =>
      rw [Outcome.map_eq_ok]
      constructor
      · rintro ⟨es, hes, rfl⟩
        exact ⟨rows, congrArg _ hrows, hes⟩
      · rintro ⟨rows', hfield, hes⟩
        cases hfield
        cases hrows
        exact ⟨e.value, hes, rfl⟩
  · next hrows =>
      constructor
      · intro h
        cases h
      · rintro ⟨rows, hfield, -⟩
        cases hfield
        exact absurd rfl (hrows rows)

theorem ofJson_eq_ok {data : Json} : ofJson data = .ok s ↔
    ∃ fields, data = .object fields ∧ fields.mapM entriesOfJson = .ok s.entities := by
  unfold ofJson
  split
  · next fields =>
      rw [Outcome.map_eq_ok]
      constructor
      · rintro ⟨entities, hentities, rfl⟩
        exact ⟨fields, rfl, hentities⟩
      · rintro ⟨_, ⟨⟩, hentities⟩
        exact ⟨s.entities, hentities, rfl⟩
  · next hdata =>
      constructor
      · intro h
        cases h
      · rintro ⟨fields, rfl, -⟩
        exact absurd rfl (hdata fields)

theorem rows_of_ofJson {data : Json} (h : ofJson data = .ok s) :
    ∃ fields, data = .object fields ∧
      s.entities.map Named.name = fields.map Named.name ∧
      ∀ e ∈ s.entities, ∃ rows, ⟨e.name, .array rows⟩ ∈ fields ∧
        ∀ x ∈ e.value, ∃ row ∈ rows, entryOfJson e.name row = .ok x := by
  obtain ⟨fields, rfl, hentities⟩ := ofJson_eq_ok.1 h
  refine ⟨fields, rfl, Outcome.map_eq_of_mapM (fun field _ e he => ?_) hentities, fun e he => ?_⟩
  · obtain ⟨rows, rfl, -⟩ := entriesOfJson_eq_ok.1 he
    rfl
  · obtain ⟨field, hfield, hread⟩ := Outcome.mem_of_mapM hentities e he
    obtain ⟨rows, rfl, hrows⟩ := entriesOfJson_eq_ok.1 hread
    exact ⟨rows, hfield, Outcome.mem_of_mapM hrows⟩

end Loads

theorem toJson_of_entryOfJson {row : Json} {x : Entry} (hrow : row.Held)
    (h : entryOfJson entity row = .ok x) : x.record.toJson = row.narrowed := by
  obtain ⟨columns, hcolumns, rfl⟩ := entryOfJson_eq_ok.1 h
  have hback := Value.toJson_ofJson hrow
  rw [hcolumns] at hback
  exact hback

def rowsData (es : List Entry) : Json := .array (es.map fun x => x.record.toJson)

def rowsToJson (e : Named (List Entry)) : Named Json := ⟨e.name, rowsData e.value⟩

theorem toJson_eq (s : Store) : s.toJson = .ofFields (s.entities.map rowsToJson) := rfl

theorem rowsToJson_of_entriesOfJson {field : Named Json} {e : Named (List Entry)}
    (hfield : field.value.Held) (h : entriesOfJson field = .ok e) :
    rowsToJson e = ⟨field.name, field.value.narrowed⟩ := by
  obtain ⟨rows, rfl, hes⟩ := entriesOfJson_eq_ok.1 h
  have hback := Outcome.map_eq_of_mapM (g := fun x => x.record.toJson)
    (fun row hrow x => toJson_of_entryOfJson (Json.held_array.1 hfield row hrow)) hes
  rw [rowsToJson, rowsData, hback, Json.narrowed, Json.mapNumbers, Json.mapItemNumbers_eq_map]
  rfl

theorem toJson_of_ofJson {data : Json} (hdata : data.Held) (h : ofJson data = .ok s) :
    s.toJson = data.narrowed := by
  obtain ⟨fields, rfl, hentities⟩ := ofJson_eq_ok.1 h
  rw [Json.held_object] at hdata
  have hback := Outcome.map_eq_of_mapM
    (fun field hfield e => rowsToJson_of_entriesOfJson (hdata.2 field hfield)) hentities
  have hrising : Named.Rising (fields.map fun c => (⟨c.name, c.value.narrowed⟩ : Named Json)) :=
    hdata.1.map fun _ => rfl
  rw [toJson_eq, hback, Json.ofFields_of_rising hrising, Json.narrowed, Json.mapNumbers,
    Json.mapFieldNumbers_eq_map]
  rfl

end Store

end RecordQuery
