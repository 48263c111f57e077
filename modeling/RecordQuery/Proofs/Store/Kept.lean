import RecordQuery.Proofs.Json.Held
import RecordQuery.Proofs.Store.Filed
import RecordQuery.Proofs.Store.Reached
import RecordQuery.Proofs.Value.Data

namespace RecordQuery

open Value (Formed Keyed)

theorem Value.each_formed_ofJson {v : Json} (h : v.Held) : (ofJson v).Each Formed := by
  induction v using Json.inductParts with
  | null | bool | decimal | string => trivial
  | int i =>
      rw [ofJson]
      split <;> trivial
  | array items ih =>
      rw [Json.held_array] at h
      rw [ofJson, ofJsonItems_eq_map, each_list, List.forall_mem_map]
      exact ⟨trivial, fun v hv => ih v hv (h v hv)⟩
  | object fields ih =>
      rw [Json.held_object] at h
      rw [ofJson, ofJsonFields_eq_map, each_document, List.forall_mem_map]
      refine ⟨?_, fun c hc => ih c hc (h.2 c hc)⟩
      simpa [Formed, List.map_map, Function.comp_def] using h.1.nodup

def Command.Formed (c : Command) : Prop :=
  ∀ r ∈ c.record?, ∀ column ∈ r.columns, column.value.Each Value.Formed

namespace Store

variable {s s' : Store} {c : Command}

structure Kept (s : Store) : Prop where
  distinct : (s.entities.map Named.name).Nodup
  sound : s.Sound

def Formed (s : Store) : Prop :=
  s.EachEntry fun _ x => ∀ column ∈ x.record.columns, column.value.Each Value.Formed

theorem kept_ofJson {data : Json} (hdata : data.Held) (h : ofJson data = .ok s) : s.Kept := by
  obtain ⟨fields, rfl, hnames, -⟩ := rows_of_ofJson h
  rw [Json.held_object] at hdata
  refine ⟨?_, sound_ofJson h⟩
  rw [hnames]
  exact hdata.1.nodup

theorem formed_ofJson {data : Json} (hdata : data.Held) (h : ofJson data = .ok s) : s.Formed := by
  obtain ⟨fields, rfl, -, hrows⟩ := rows_of_ofJson h
  rw [Json.held_object] at hdata
  intro e he x hx
  obtain ⟨rows, hfield, hrow⟩ := hrows e he
  obtain ⟨row, hmem, hread⟩ := hrow x hx
  obtain ⟨columns, hcolumns, rfl⟩ := entryOfJson_eq_ok.1 hread
  have hheld : row.Held := Json.held_array.1 (hdata.2 _ hfield) row hmem
  have hformed := Value.each_formed_ofJson hheld
  rw [hcolumns, Value.each_document] at hformed
  exact hformed.2

theorem Step.kept (h : Step c s s') (hs : s.Kept) : s'.Kept := by
  refine ⟨?_, h.sound hs.sound⟩
  cases h with
  | read | absent => exact hs.distinct
  | erased | inserted | updated => exact Named.nodup_put hs.distinct

theorem Step.formed (h : Step c s s') (hc : c.params = [] → c.Formed) (hs : s.Formed) :
    s'.Formed := by
  refine h.eachEntry (fun _ fields x hx column hcolumn => ?_) (fun r hr hclosed ttl => ?_) hs
  · exact hx column (List.mem_filter.1 hcolumn).1
  · cases c with
    | insert | update =>
        cases hr
        exact hc hclosed _ rfl
    | select | delete => cases hr

theorem Kept.execute (h : s.Kept) (c : Command) : (backend.execute c s).2.Kept := by
  rcases step_or_same c s with hstep | hsame
  · exact hstep.kept h
  · rw [hsame]
    exact h

theorem Formed.execute (h : s.Formed) (hc : c.params = [] → c.Formed) :
    (backend.execute c s).2.Formed := by
  rcases step_or_same c s with hstep | hsame
  · exact hstep.formed hc h
  · rw [hsame]
    exact h

theorem Formed.keyed {entity : String} {r : Record} (h : s.Formed) (hr : r ∈ s.records entity)
    (hdistinct : (r.columns.map Named.name).Nodup) : r.document.Each Keyed := by
  obtain ⟨x, hx, rfl⟩ := List.mem_map.1 hr
  refine Value.each_document.2 ⟨hdistinct, fun column hcolumn => ?_⟩
  exact (EachEntry.entries h entity x hx column hcolumn).keyed

end Store

end RecordQuery
