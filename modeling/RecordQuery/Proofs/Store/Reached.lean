import RecordQuery.Proofs.Store.Bulk
import RecordQuery.Proofs.Store.Loading
import RecordQuery.Proofs.Store.Step
import RecordQuery.Proofs.Value.Parts

namespace RecordQuery

namespace Value

theorem params_ofJson (v : Json) : (ofJson v).params = [] := by
  induction v using Json.inductParts with
  | null | bool | decimal | string => rfl
  | int i =>
      rw [ofJson]
      split <;> rfl
  | array items ih =>
      rw [ofJson, params, ofJsonItems_eq_map, itemParams_eq_flatMap, List.flatMap_map]
      exact List.flatMap_eq_nil_iff.2 ih
  | object fields ih =>
      rw [ofJson, params, ofJsonFields_eq_map, columnParams_eq_flatMap, List.flatMap_map]
      exact List.flatMap_eq_nil_iff.2 ih

theorem columnParams_filter {cs : List Column} (h : columnParams cs = []) (keep : Column → Bool) :
    columnParams (cs.filter keep) = [] := by
  rw [columnParams_eq_flatMap, List.flatMap_eq_nil_iff] at h ⊢
  intro c hc
  exact h c (List.mem_filter.1 hc).1

end Value

structure Entry.Placed (entity : String) (x : Entry) : Prop where
  named : x.record.entity = entity
  closed : x.record.params = []

namespace Store

variable {s s' : Store} {c : Command} {entity : String} {es : List Entry}

def Sound (s : Store) : Prop := ∀ e ∈ s.entities, ∀ x ∈ e.value, x.Placed e.name

def EachEntry (P : String → Entry → Prop) (s : Store) : Prop :=
  ∀ e ∈ s.entities, ∀ x ∈ e.value, P e.name x

namespace EachEntry

variable {P : String → Entry → Prop}

theorem entries (h : s.EachEntry P) (entity : String) : ∀ x ∈ s.entries entity, P entity x := by
  intro x hx
  rw [Store.entries] at hx
  cases hfound : s.entries? entity with
  | none =>
      rw [hfound] at hx
      cases hx
  | some es =>
      rw [hfound] at hx
      exact h _ (Named.mem_of_find?_eq_some hfound) x hx

theorem withEntries (h : s.EachEntry P) (hes : ∀ x ∈ es, P entity x) :
    (s.withEntries entity es).EachEntry P := by
  apply Named.forall_mem_put
  · exact hes
  · exact h

end EachEntry

theorem Sound.entries (h : s.Sound) (entity : String) :
    ∀ x ∈ s.entries entity, x.Placed entity :=
  EachEntry.entries h entity

theorem forall_mem_erase {P : Entry → Prop} {fields : List String}
    (hwithout : ∀ x, P x → P { x with record := without fields x.record }) (hs : List Bool)
    (h : ∀ x ∈ es, P x) : ∀ x ∈ erase fields hs es, P x := by
  induction es generalizing hs with
  | nil => cases hs <;> exact h
  | cons x es ih =>
      rw [List.forall_mem_cons] at h
      cases hs with
      | nil => exact List.forall_mem_cons.2 h
      | cons hit hs =>
          have hrest := ih hs h.2
          rw [erase]
          split
          · split
            · exact hrest
            · exact List.forall_mem_cons.2 ⟨hwithout x h.1, hrest⟩
          · exact List.forall_mem_cons.2 ⟨h.1, hrest⟩

theorem forall_mem_replace {P : Entry → Prop} {key : Column} {r : Record}
    (hr : ∀ ttl, P ⟨r, ttl⟩) (h : ∀ x ∈ es, P x) : ∀ x ∈ replace key r es, P x := by
  induction es with
  | nil => exact List.forall_mem_singleton.2 (hr none)
  | cons x es ih =>
      rw [List.forall_mem_cons] at h
      rw [replace]
      split
      · exact List.forall_mem_cons.2 ⟨hr x.ttl, h.2⟩
      · exact List.forall_mem_cons.2 ⟨h.1, ih h.2⟩

/-- What a step keeps of all entries: it holds without any columns, and of the record written. -/
theorem Step.eachEntry {P : String → Entry → Prop} (h : Step c s s')
    (hwithout : ∀ entity fields x, P entity x →
      P entity { x with record := without fields x.record })
    (hwritten : ∀ r ∈ c.record?, r.params = [] → ∀ ttl, P r.entity ⟨r, ttl⟩)
    (hs : s.EachEntry P) : s'.EachEntry P := by
  cases h with
  | read | absent => exact hs
  | erased hentries =>
      apply hs.withEntries
      apply forall_mem_erase (hwithout _ _)
      exact hs _ (Named.mem_of_find?_eq_some hentries)
  | inserted ttl _ hclosed =>
      apply hs.withEntries
      intro x hx
      rcases List.mem_append.1 hx with hx | hx
      · exact hs.entries _ x hx
      · rw [List.mem_singleton.1 hx]
        exact hwritten _ rfl hclosed ttl
  | updated _ hclosed _ =>
      apply hs.withEntries
      exact forall_mem_replace (hwritten _ rfl hclosed) (hs.entries _)

theorem sound_ofJson {data : Json} (h : ofJson data = .ok s) : s.Sound := by
  obtain ⟨fields, -, -, hrows⟩ := rows_of_ofJson h
  intro e he x hx
  obtain ⟨rows, -, hrow⟩ := hrows e he
  obtain ⟨row, -, hread⟩ := hrow x hx
  obtain ⟨columns, hcolumns, rfl⟩ := entryOfJson_eq_ok.1 hread
  have hclosed := Value.params_ofJson row
  rw [hcolumns] at hclosed
  exact ⟨rfl, hclosed⟩

theorem Placed.without {x : Entry} (h : x.Placed entity) (fields : List String) :
    Entry.Placed entity { x with record := Store.without fields x.record } :=
  ⟨h.named, Value.columnParams_filter h.closed _⟩

theorem Step.sound (h : Step c s s') (hs : s.Sound) : s'.Sound :=
  h.eachEntry (fun _ fields _ hx => Placed.without hx fields)
    (fun _ _ hclosed _ => ⟨rfl, hclosed⟩) hs

inductive Reached : Store → Prop
  | empty : Reached empty
  | loaded {data : Json} {s : Store} (h : ofJson data = .ok s) : Reached s
  | call {s : Store} (c : Command) (h : Reached s) : Reached (backend.execute c s).2

namespace Reached

theorem sound (h : Reached s) : s.Sound := by
  induction h with
  | empty => exact List.forall_mem_nil _
  | loaded h => exact sound_ofJson h
  | @call s c _ ih =>
      rcases step_or_same c s with hstep | hsame
      · exact hstep.sound ih
      · rw [hsame]
        exact ih

theorem insertAll (h : Reached s) (rs : List Record) (ttl : Option Ttl) :
    Reached (backend.insertAll rs ttl s).2 := by
  apply Backend.writeAll_keeps ?_ rs h
  intro r s hs
  exact hs.call (.insert r ttl)

theorem updateAll (h : Reached s) (rs : List Record) : Reached (backend.updateAll rs s).2 := by
  apply Backend.writeAll_keeps ?_ rs h
  intro r s hs
  exact hs.call (.update r)

end Reached

theorem writeAll_stops {write : Record → Store → Outcome Record × Store}
    (hwrite : ∀ r s e, (write r s).1 = .error e → (write r s).2 = s) {rs : List Record}
    {e : QueryError} : Backend.writeAll write rs s = (.error e, s') ↔
      ∃ done r rest stored, rs = done ++ r :: rest ∧ Backend.Wrote write done stored s s' ∧
        (write r s').1 = .error e := by
  rw [Backend.writeAll_eq_error]
  constructor
  · rintro ⟨done, r, rest, stored, t, hrs, hwrote, hfail⟩
    have hsame := hwrite r t e (congrArg Prod.fst hfail)
    rw [hfail] at hsame
    subst hsame
    exact ⟨done, r, rest, stored, hrs, hwrote, congrArg Prod.fst hfail⟩
  · rintro ⟨done, r, rest, stored, hrs, hwrote, hfail⟩
    exact ⟨done, r, rest, stored, s', hrs, hwrote, Prod.ext hfail (hwrite r s' e hfail)⟩

/-- In a store that is reached, records stand under their own names and hold no parameter. A
statement that fails leaves the store as it is, one that succeeds changes no other entity. Bulk
writes that fail leave the store that single writes of the records before the failing one leave. -/
theorem reached_orderly (h : Reached s) :
    (∀ entity, ∀ r ∈ s.records entity, r.entity = entity ∧ r.params = []) ∧
    (∀ c e, (backend.execute c s).1 = .error e → (backend.execute c s).2 = s) ∧
    (∀ c rows, (backend.execute c s).1 = .ok rows → ∀ other, other ≠ c.entity →
      (backend.execute c s).2.records other = s.records other ∧
      (backend.execute c s).2.ttls other = s.ttls other) ∧
    (∀ rs ttl e s', backend.insertAll rs ttl s = (.error e, s') ↔
      ∃ done r rest stored, rs = done ++ r :: rest ∧
        Backend.Wrote (backend.insert · ttl) done stored s s' ∧
        (backend.insert r ttl s').1 = .error e) ∧
    (∀ rs e s', backend.updateAll rs s = (.error e, s') ↔
      ∃ done r rest stored, rs = done ++ r :: rest ∧
        Backend.Wrote backend.update done stored s s' ∧ (backend.update r s').1 = .error e) := by
  refine ⟨?_, ?_, ?_, ?_, ?_⟩
  · intro entity r hr
    obtain ⟨x, hx, rfl⟩ := List.mem_map.1 hr
    have hplaced := h.sound.entries entity x hx
    exact ⟨hplaced.named, hplaced.closed⟩
  · intro c e
    exact (answered_execute c s).snd_of_error
  · intro c rows hrows other hother
    have hentries := ((answered_execute c s).step_of_ok hrows).entries_of_ne hother.symm
    simp only [records, ttls, hentries, and_self]
  · intro rs ttl e s'
    apply writeAll_stops
    intro r t e
    exact (answered_insert r ttl t).snd_of_error
  · intro rs e s'
    apply writeAll_stops
    intro r t e
    exact (answered_update r t).snd_of_error

def stocked : Store :=
  (backend.execute (.insert ⟨"b", [⟨"n", .string "2"⟩]⟩ none)
    ⟨[⟨"a", [⟨⟨"a", [⟨"n", .string "1"⟩]⟩, none⟩]⟩]⟩).2

theorem reached_stocked : Reached stocked := by
  apply Reached.call
  have h : ofJson (.object [⟨"a", .array [.object [⟨"n", .string "1"⟩]]⟩]) =
      .ok ⟨[⟨"a", [⟨⟨"a", [⟨"n", .string "1"⟩]⟩, none⟩]⟩]⟩ := rfl
  exact .loaded h

theorem stocked_orderly :
    Reached stocked ∧
    (∀ r ∈ stocked.records "a", r.entity = "a" ∧ r.params = []) ∧
    (backend.execute (.update ⟨"a", []⟩) stocked).2 = stocked ∧
    (backend.execute (.delete ⟨"a", [], some (.compare .equal ⟨"n", .param "p"⟩)⟩) stocked).2 =
      stocked ∧
    (backend.execute (.delete ⟨"a", [], none⟩) stocked).2.records "b" = stocked.records "b" ∧
    backend.insertAll [⟨"a", [⟨"n", .string "3"⟩]⟩, ⟨"a", [⟨"n", .param "p"⟩]⟩] none stocked =
      (.error (.unsupported "memory backend cannot store unbound parameter @p"),
        (backend.insert ⟨"a", [⟨"n", .string "3"⟩]⟩ none stocked).2) := by
  obtain ⟨hplaced, hfail, hother, hinserts, -⟩ := reached_orderly reached_stocked
  refine ⟨reached_stocked, hplaced "a", ?_, ?_, ?_, ?_⟩
  · exact hfail (.update ⟨"a", []⟩) _ rfl
  · exact hfail (.delete ⟨"a", [], some (.compare .equal ⟨"n", .param "p"⟩)⟩) _ rfl
  · exact (hother (.delete ⟨"a", [], none⟩) [] rfl "b" (by decide)).1
  · apply (hinserts _ _ _ _).2
    exact ⟨[⟨"a", [⟨"n", .string "3"⟩]⟩], ⟨"a", [⟨"n", .param "p"⟩]⟩, [], _, rfl,
      .cons rfl (.nil _), rfl⟩

end Store

end RecordQuery
