import RecordQuery.Proofs.Store.Filed
import RecordQuery.Proofs.Store.Reached

namespace RecordQuery

open Named (ranked)
open Value (Keyed Finite)

namespace Record

variable {r : Record}

/-- The record as it comes back from data. Of a column that comes twice the last value is kept, and a
number that is not finite comes back as null. -/
def reloaded (r : Record) : Record :=
  ⟨r.entity, Value.ofJsonFields (Json.insertFields [] (Value.toJsonFields r.columns))⟩

theorem ofJson_toJson (r : Record) : Value.ofJson r.toJson = .document r.reloaded.columns := by
  rw [toJson, Json.ofFields_eq, Value.ofJson]
  rfl

/-- A record that data can hold: no column comes twice, nor a key of a document within it, and its
numbers are finite. -/
structure Lasting (r : Record) : Prop where
  keyed : r.document.Each Keyed
  finite : r.document.Each Finite

theorem Lasting.reloaded_eq (h : r.Lasting) (hclosed : r.params = []) : r.reloaded = r.filed := by
  have hback := Value.ofJson_toJson h.keyed h.finite hclosed
  rw [toJson_document, ofJson_toJson, ← document_filed] at hback
  exact congrArg (Record.mk r.entity) (Value.document.inj hback)

end Record

def Entry.reloaded (x : Entry) : Entry := ⟨x.record.reloaded, none⟩

namespace Store

variable {s : Store} {q : Selection} {entity : String}

def reloaded (s : Store) : Store :=
  ⟨(ranked s.entities).map fun e => ⟨e.name, e.value.map Entry.reloaded⟩⟩

theorem entryOfJson_toJson {x : Entry} (h : x.record.entity = entity) :
    entryOfJson entity x.record.toJson = .ok x.reloaded := by
  subst h
  exact entryOfJson_eq_ok.2 ⟨_, x.record.ofJson_toJson, rfl⟩

theorem entriesOfJson_rowsToJson {e : Named (List Entry)}
    (h : ∀ x ∈ e.value, x.record.entity = e.name) :
    entriesOfJson (rowsToJson e) = .ok ⟨e.name, e.value.map Entry.reloaded⟩ := by
  refine entriesOfJson_eq_ok.2 ⟨_, rfl, ?_⟩
  rw [List.mapM_map]
  exact Outcome.mapM_eq_ok fun x hx => entryOfJson_toJson (h x hx)

theorem ofJson_toJson (hdistinct : (s.entities.map Named.name).Nodup) (hsound : s.Sound) :
    ofJson s.toJson = .ok s.reloaded := by
  have hranked : ranked (s.entities.map rowsToJson) = (ranked s.entities).map rowsToJson :=
    Named.ranked_map rowsData s.entities
  have hnames : ((s.entities.map rowsToJson).map Named.name).Nodup := by
    rw [List.map_map]
    exact hdistinct
  rw [toJson_eq, Json.ofFields_of_nodup hnames, hranked]
  refine ofJson_eq_ok.2 ⟨_, rfl, ?_⟩
  rw [List.mapM_map]
  refine Outcome.mapM_eq_ok fun e he => ?_
  exact entriesOfJson_rowsToJson fun x hx => (hsound e (Named.mem_ranked.1 he) x hx).named

theorem records_reloaded (hdistinct : (s.entities.map Named.name).Nodup) (entity : String) :
    s.reloaded.records entity = (s.records entity).map Record.reloaded := by
  have hentries : s.reloaded.entries? entity =
      (s.entries? entity).map (List.map Entry.reloaded) := by
    rw [entries?, reloaded, Named.find?_map (List.map Entry.reloaded), Named.find?_ranked hdistinct]
    rfl
  rw [records, entries, hentries, records, entries]
  cases s.entries? entity with
  | none => rfl
  | some es => simp [Entry.reloaded]

theorem select_reloaded {β : Type} {g : Record → β} (hdistinct : (s.entities.map Named.name).Nodup)
    (hsound : s.Sound) (hlasting : ∀ r ∈ s.records q.entity, r.Lasting)
    (hg : ∀ r : Record, r.document.Each Keyed →
      g (r.filed.project q.fields) = g (r.project q.fields)) :
    (s.reloaded.select q).map (List.map g) = (s.select q).map (List.map g) := by
  apply select_filed hg
  · exact fun r hr => (hlasting r hr).keyed
  · rw [records_reloaded hdistinct]
    refine List.map_congr_left fun r hr => (hlasting r hr).reloaded_eq ?_
    obtain ⟨x, hx, rfl⟩ := List.mem_map.1 hr
    exact (hsound.entries q.entity x hx).closed

end Store

end RecordQuery
