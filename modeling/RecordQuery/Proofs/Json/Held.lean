import RecordQuery.Json.Reader
import RecordQuery.Proofs.Json.Rising

/-!
The data that JSON text can hold. Its integers fit 64 bits with or without a sign, its other numbers
are finite, and its objects have their fields in rising order. What is read from a text is such data,
however its numerals are weighed.
-/

namespace RecordQuery.Json

open Named (Rising)

@[elab_as_elim]
theorem inductParts {P : Json → Prop} (null : P .null) (bool : ∀ b, P (.bool b))
    (int : ∀ i, P (.int i)) (decimal : ∀ x, P (.decimal x)) (string : ∀ s, P (.string s))
    (array : ∀ items, (∀ v ∈ items, P v) → P (.array items))
    (object : ∀ fields : List (Named Json), (∀ c ∈ fields, P c.value) → P (.object fields))
    (v : Json) : P v := by
  refine @Json.rec P (fun vs => ∀ v ∈ vs, P v) (fun cs => ∀ c ∈ cs, P c.value)
    (fun c => P c.value) null bool int decimal string array object ?_ ?_ ?_ ?_ ?_ v
  · simp
  · exact fun v vs hv hvs => List.forall_mem_cons.2 ⟨hv, hvs⟩
  · simp
  · exact fun c cs hc hcs => List.forall_mem_cons.2 ⟨hc, hcs⟩
  · exact fun name v hv => hv

mutual

def Held : Json → Prop
  | .int i => -0x8000000000000000 ≤ i ∧ i < 0x10000000000000000
  | .decimal x => x.isFinite = true
  | .array items => ItemsHeld items
  | .object fields => Rising fields ∧ FieldsHeld fields
  | .null | .bool _ | .string _ => True

def ItemsHeld : List Json → Prop
  | [] => True
  | v :: vs => v.Held ∧ ItemsHeld vs

def FieldsHeld : List (Named Json) → Prop
  | [] => True
  | ⟨_, v⟩ :: cs => v.Held ∧ FieldsHeld cs

end

theorem itemsHeld_iff {vs : List Json} : ItemsHeld vs ↔ ∀ v ∈ vs, v.Held := by
  induction vs with
  | nil => simp [ItemsHeld]
  | cons v vs ih => simp [ItemsHeld, ih]

theorem fieldsHeld_iff {cs : List (Named Json)} : FieldsHeld cs ↔ ∀ c ∈ cs, c.value.Held := by
  induction cs with
  | nil => simp [FieldsHeld]
  | cons c cs ih => simp [FieldsHeld, ih]

theorem held_array {items : List Json} : (array items).Held ↔ ∀ v ∈ items, v.Held := by
  rw [Held, itemsHeld_iff]

theorem held_object {fields : List (Named Json)} :
    (object fields).Held ↔ Rising fields ∧ ∀ c ∈ fields, c.value.Held := by
  rw [Held, fieldsHeld_iff]

theorem held_ofFields {fields : List (Named Json)} (h : ∀ c ∈ fields, c.value.Held) :
    (ofFields fields).Held := by
  obtain ⟨cs, heq, hrising, hmem⟩ := rising_ofFields fields
  rw [heq, held_object]
  exact ⟨hrising, fun c hc => h c (hmem c hc)⟩

section Reader

variable {w : Weighing}

theorem held_of_toJson? {n : Numeral} {v : Json} (h : n.toJson? w = some v) : v.Held := by
  unfold Numeral.toJson? at h
  extract_lets i x at h
  split at h
  · next hrange =>
      cases h
      exact hrange.2.2.2
  · split at h
    · next hfinite =>
        cases h
        exact hfinite
    · cases h

theorem held_of_readNumber? {cs : List Char} {r : Read Char Json cs}
    (h : readNumber? w cs = some r) : r.value.Held := by
  unfold readNumber? at h
  extract_lets negative body whole at h
  split at h
  · cases h
  · split at h
    · cases h
    · split at h
      · cases h
      · split at h
        · cases h
        · obtain ⟨v, hv, rfl⟩ := Option.map_eq_some_iff.1 h
          exact held_of_toJson? hv

theorem held_of_readWord? {cs : List Char} {r : Read Char Json cs} (h : readWord? cs = some r) :
    r.value.Held := by
  unfold readWord? at h
  split at h <;> cases h <;> trivial

mutual

theorem held_of_readValue? {depth : Nat} {cs : List Char} {r : Read Char Json cs}
    (h : readValue? w depth cs = some r) : r.value.Held := by
  unfold readValue? at h
  split at h
  · cases h
  · obtain ⟨s, -, rfl⟩ := Option.map_eq_some_iff.1 h
    trivial
  · split at h
    · cases h
    · cases h
      exact held_array.2 (List.forall_mem_nil _)
    · obtain ⟨items, hitems, rfl⟩ := Option.map_eq_some_iff.1 h
      exact held_array.2 (held_of_readItems? hitems)
  · split at h
    · cases h
    · cases h
      exact held_object.2 ⟨.nil, List.forall_mem_nil _⟩
    · obtain ⟨fields, hfields, rfl⟩ := Option.map_eq_some_iff.1 h
      exact held_ofFields (held_of_readFields? hfields)
  · dsimp only at h
    obtain ⟨v, hv, rfl⟩ := Option.map_eq_some_iff.1 h
    change v.value.Held
    split at hv
    · exact held_of_readNumber? hv
    · exact held_of_readWord? hv
termination_by (cs.length, 0)

theorem held_of_readItems? {depth : Nat} {cs : List Char} {r : Read Char (List Json) cs}
    (h : readItems? w depth cs = some r) : ∀ v ∈ r.value, v.Held := by
  unfold readItems? at h
  split at h
  · cases h
  · next v rest hlt hv =>
      have hheld := held_of_readValue? hv
      split at h
      · cases h
        exact List.forall_mem_singleton.2 hheld
      · next rest' hlt' _ =>
          obtain ⟨items, hitems, rfl⟩ := Option.map_eq_some_iff.1 h
          exact List.forall_mem_cons.2 ⟨hheld, held_of_readItems? hitems⟩
      · cases h
termination_by (cs.length, 1)

theorem held_of_readFields? {depth : Nat} {cs : List Char} {r : Read Char (List (Named Json)) cs}
    (h : readFields? w depth cs = some r) : ∀ c ∈ r.value, c.value.Held := by
  unfold readFields? at h
  split at h
  · split at h
    · cases h
    · split at h
      · split at h
        · cases h
        · next v rest₃ hlt hv =>
            have hheld := held_of_readValue? hv
            dsimp only at h
            split at h
            · cases h
              exact List.forall_mem_singleton.2 hheld
            · obtain ⟨fields, hfields, rfl⟩ := Option.map_eq_some_iff.1 h
              exact List.forall_mem_cons.2 ⟨hheld, held_of_readFields? hfields⟩
            · cases h
      · cases h
  · cases h
termination_by (cs.length, 1)

end

theorem held_of_read? {s : String} {v : Json} (h : read? w s = some v) : v.Held := by
  unfold read? at h
  split at h
  · cases h
  · next r hr =>
      split at h
      · cases h
        exact held_of_readValue? hr
      · cases h

theorem read?_of_toList {s : String} {cs : List Char} {v : Json} (hs : s.toList = cs)
    (h : (readValue? w 127 cs).map (fun r => (r.rest, r.value)) = some ([], v)) :
    read? w s = some v := by
  obtain ⟨r, hr, heq⟩ := Option.map_eq_some_iff.1 h
  obtain ⟨hrest, rfl⟩ := Prod.mk.inj heq
  subst hs
  simp only [read?, hr, hrest]
  rfl

end Reader

end RecordQuery.Json
