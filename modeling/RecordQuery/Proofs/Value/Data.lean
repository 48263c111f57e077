import RecordQuery.Proofs.Json.Held
import RecordQuery.Proofs.Number.Whole
import RecordQuery.Record

namespace RecordQuery

namespace Json

section Numbers

variable {int : Int → Json} {decimal : Double → Json} {P : Int → Prop}

mutual

def mapNumbers (int : Int → Json) (decimal : Double → Json) : Json → Json
  | .null => .null
  | .bool b => .bool b
  | .int i => int i
  | .decimal x => decimal x
  | .string s => .string s
  | .array items => .array (mapItemNumbers int decimal items)
  | .object fields => .object (mapFieldNumbers int decimal fields)

def mapItemNumbers (int : Int → Json) (decimal : Double → Json) : List Json → List Json
  | [] => []
  | v :: vs => v.mapNumbers int decimal :: mapItemNumbers int decimal vs

def mapFieldNumbers (int : Int → Json) (decimal : Double → Json) :
    List (Named Json) → List (Named Json)
  | [] => []
  | ⟨name, v⟩ :: cs => ⟨name, v.mapNumbers int decimal⟩ :: mapFieldNumbers int decimal cs

end

theorem mapItemNumbers_eq_map (vs : List Json) :
    mapItemNumbers int decimal vs = vs.map (mapNumbers int decimal) := by
  induction vs with
  | nil => rfl
  | cons v vs ih => simp [mapItemNumbers, ih]

theorem mapFieldNumbers_eq_map (cs : List (Named Json)) :
    mapFieldNumbers int decimal cs =
      cs.map fun c => ⟨c.name, c.value.mapNumbers int decimal⟩ := by
  induction cs with
  | nil => rfl
  | cons c cs ih => simp [mapFieldNumbers, ih]

mutual

def EachInt (P : Int → Prop) : Json → Prop
  | .int i => P i
  | .array items => ItemsEachInt P items
  | .object fields => FieldsEachInt P fields
  | .null | .bool _ | .decimal _ | .string _ => True

def ItemsEachInt (P : Int → Prop) : List Json → Prop
  | [] => True
  | v :: vs => v.EachInt P ∧ ItemsEachInt P vs

def FieldsEachInt (P : Int → Prop) : List (Named Json) → Prop
  | [] => True
  | ⟨_, v⟩ :: cs => v.EachInt P ∧ FieldsEachInt P cs

end

theorem itemsEachInt_iff {vs : List Json} : ItemsEachInt P vs ↔ ∀ v ∈ vs, v.EachInt P := by
  induction vs with
  | nil => simp [ItemsEachInt]
  | cons v vs ih => simp [ItemsEachInt, ih]

theorem fieldsEachInt_iff {cs : List (Named Json)} :
    FieldsEachInt P cs ↔ ∀ c ∈ cs, c.value.EachInt P := by
  induction cs with
  | nil => simp [FieldsEachInt]
  | cons c cs ih => simp [FieldsEachInt, ih]

theorem mapNumbers_congr_iff {int' : Int → Json} {decimal' : Double → Json} {v : Json}
    (hv : v.Held) (hdecimal : ∀ x, x.isFinite = true → decimal x = decimal' x)
    (hint : ∀ i, (Json.int i).Held → (int i = int' i ↔ P i)) :
    v.mapNumbers int decimal = v.mapNumbers int' decimal' ↔ v.EachInt P := by
  induction v using inductParts with
  | null | bool | string => exact ⟨fun _ => trivial, fun _ => rfl⟩
  | int i => exact hint i hv
  | decimal x => exact ⟨fun _ => trivial, fun _ => hdecimal x hv⟩
  | array items ih =>
      rw [held_array] at hv
      rw [mapNumbers, mapNumbers, mapItemNumbers_eq_map, mapItemNumbers_eq_map, EachInt,
        itemsEachInt_iff, array.injEq, List.map_inj_left]
      exact forall₂_congr fun v hmem => ih v hmem (hv v hmem)
  | object fields ih =>
      rw [held_object] at hv
      rw [mapNumbers, mapNumbers, mapFieldNumbers_eq_map, mapFieldNumbers_eq_map, EachInt,
        fieldsEachInt_iff, object.injEq, List.map_inj_left]
      refine forall₂_congr fun c hmem => ?_
      rw [Named.mk.injEq, and_iff_right rfl]
      exact ih c hmem (hv.2 c hmem)

theorem mapNumbers_mapNumbers {f : Int → Json} {g : Double → Json} (v : Json) :
    (v.mapNumbers f g).mapNumbers int decimal =
      v.mapNumbers (fun i => (f i).mapNumbers int decimal)
        fun x => (g x).mapNumbers int decimal := by
  induction v using inductParts with
  | null | bool | string | int | decimal => rfl
  | array items ih =>
      simp only [mapNumbers, mapItemNumbers_eq_map, List.map_map, array.injEq, List.map_inj_left]
      exact ih
  | object fields ih =>
      simp only [mapNumbers, mapFieldNumbers_eq_map, List.map_map, object.injEq, List.map_inj_left,
        Function.comp_apply, Named.mk.injEq, true_and]
      exact ih

theorem mapNumbers_self (v : Json) : v.mapNumbers .int .decimal = v := by
  induction v using inductParts with
  | null | bool | string | int | decimal => rfl
  | array items ih =>
      rw [mapNumbers, mapItemNumbers_eq_map, List.map_congr_left ih, List.map_id']
  | object fields ih =>
      have hfields : ∀ c ∈ fields, (⟨c.name, c.value.mapNumbers .int .decimal⟩ : Named Json) = c := by
        intro c hc
        rw [ih c hc]
      rw [mapNumbers, mapFieldNumbers_eq_map, List.map_congr_left hfields, List.map_id']

end Numbers

/-- An integer as the number that a value holds in its place. -/
def narrowInt (i : Int) : Json :=
  if (Number.toInt64? i).isSome then .int i else .decimal (.ofInt i)

def narrowed (v : Json) : Json := v.mapNumbers narrowInt .decimal

/-- The data with each number as the count of units of 2⁻¹⁰⁷⁴ that it is worth. So data are equal in
it where they are equal with their numbers compared by value. -/
def inUnits (v : Json) : Json :=
  v.mapNumbers (fun i => .int (i * Double.unitsOfOne))
    fun x => .int (if x.negative then -Int.ofNat x.units else Int.ofNat x.units)

theorem toInt64?_of_lt {i : Int} (h : (Json.int i).Held) (hlt : i < 0x8000000000000000) :
    Number.toInt64? i = some (Int64.ofInt i) :=
  if_pos ⟨h.1, hlt⟩

theorem toInt64?_of_le {i : Int} (hle : 0x8000000000000000 ≤ i) : Number.toInt64? i = none :=
  if_neg fun hrange => absurd hrange.2 (not_lt.2 hle)

theorem narrowInt_of_lt {i : Int} (h : (Json.int i).Held) (hlt : i < 0x8000000000000000) :
    narrowInt i = .int i := by
  rw [narrowInt, toInt64?_of_lt h hlt]
  rfl

theorem narrowInt_of_le {i : Int} (hle : 0x8000000000000000 ≤ i) :
    narrowInt i = .decimal (.ofInt i) := by
  rw [narrowInt, toInt64?_of_le hle]
  rfl

theorem narrowInt_eq_iff {i : Int} (h : (Json.int i).Held) :
    narrowInt i = .int i ↔ i < 0x8000000000000000 := by
  rcases lt_or_ge i 0x8000000000000000 with hlt | hle
  · simp [narrowInt_of_lt h hlt, hlt]
  · simp [narrowInt_of_le hle, hle]

theorem inUnits_narrowInt_eq_iff {i : Int} (h : (Json.int i).Held) :
    (narrowInt i).inUnits = (Json.int i).inUnits ↔
      (0x8000000000000000 ≤ i → i % 2048 = 0) := by
  rcases lt_or_ge i 0x8000000000000000 with hlt | hle
  · rw [narrowInt_of_lt h hlt]
    exact ⟨fun _ hle => absurd hlt (not_lt.2 hle), fun _ => rfl⟩
  · obtain ⟨n, rfl⟩ : ∃ n : Nat, i = n := ⟨i.toNat, by omega⟩
    obtain ⟨hsign, -, hunits⟩ := Double.ofInt_large hle h.2
    rw [Int.natAbs_natCast] at hunits
    have hone : (Double.unitsOfOne : Int) ≠ 0 :=
      Int.natCast_ne_zero.2 (Nat.ne_of_gt Double.unitsOfOne_pos)
    rw [narrowInt_of_le hle, inUnits, inUnits, mapNumbers, mapNumbers, hsign, hunits, int.injEq,
      if_neg Bool.false_ne_true, Int.ofNat_eq_natCast, Int.natCast_mul, Int.mul_eq_mul_right_iff hone,
      Int.natCast_inj, Double.toMultiple_eq_iff]
    omega

theorem narrowed_eq_iff {v : Json} (h : v.Held) :
    v.narrowed = v ↔ v.EachInt (· < 0x8000000000000000) := by
  have hcongr := @mapNumbers_congr_iff narrowInt .decimal _ .int .decimal v h (fun _ _ => rfl)
    fun i => narrowInt_eq_iff
  rwa [mapNumbers_self] at hcongr

theorem inUnits_narrowed_eq_iff {v : Json} (h : v.Held) :
    v.narrowed.inUnits = v.inUnits ↔
      v.EachInt fun i => 0x8000000000000000 ≤ i → i % 2048 = 0 := by
  unfold narrowed
  rw [inUnits, mapNumbers_mapNumbers]
  exact mapNumbers_congr_iff h (fun _ _ => rfl) fun i => inUnits_narrowInt_eq_iff

end Json

namespace Value

theorem ofJsonItems_eq_map (vs : List Json) : ofJsonItems vs = vs.map ofJson := by
  induction vs with
  | nil => rfl
  | cons v vs ih => simp [ofJsonItems, ih]

theorem ofJsonFields_eq_map (cs : List (Named Json)) :
    ofJsonFields cs = cs.map fun c => ⟨c.name, ofJson c.value⟩ := by
  induction cs with
  | nil => rfl
  | cons c cs ih => simp [ofJsonFields, ih]

theorem toJsonItems_eq_map (vs : List Value) : toJsonItems vs = vs.map toJson := by
  induction vs with
  | nil => rfl
  | cons v vs ih => simp [toJsonItems, ih]

theorem toJsonFields_eq_map (cs : List Column) :
    toJsonFields cs = cs.map fun c => ⟨c.name, c.value.toJson⟩ := by
  induction cs with
  | nil => rfl
  | cons c cs ih => simp [toJsonFields, ih]

theorem toJson_ofJson {v : Json} (h : v.Held) : (ofJson v).toJson = v.narrowed := by
  unfold Json.narrowed
  induction v using Json.inductParts with
  | null | bool | string => rfl
  | int i =>
      rw [Json.mapNumbers, ofJson]
      rcases lt_or_ge i 0x8000000000000000 with hlt | hle
      · have htoInt := Number.toInt_of_toInt64? (Json.toInt64?_of_lt h hlt)
        simp only [Json.toInt64?_of_lt h hlt, Json.narrowInt_of_lt h hlt, toJson, htoInt]
      · obtain ⟨-, hfinite, -⟩ := Double.ofInt_large hle h.2
        simp only [Json.toInt64?_of_le hle, Json.narrowInt_of_le hle, toJson, hfinite, if_true]
  | decimal x => exact if_pos h
  | array items ih =>
      rw [Json.held_array] at h
      rw [ofJson, toJson, ofJsonItems_eq_map, toJsonItems_eq_map, List.map_map, Json.mapNumbers,
        Json.mapItemNumbers_eq_map]
      exact congrArg _ (List.map_congr_left fun v hmem => ih v hmem (h v hmem))
  | object fields ih =>
      rw [Json.held_object] at h
      have hfields : (fields.map fun c => (⟨c.name, (ofJson c.value).toJson⟩ : Named Json)) =
          fields.map fun c => ⟨c.name, c.value.mapNumbers Json.narrowInt .decimal⟩ :=
        List.map_congr_left fun c hmem => by rw [ih c hmem (h.2 c hmem)]
      rw [ofJson, toJson, ofJsonFields_eq_map, toJsonFields_eq_map, List.map_map, Json.mapNumbers,
        Json.mapFieldNumbers_eq_map, ← hfields]
      exact Json.ofFields_of_rising (h.1.map fun _ => rfl)

end Value

end RecordQuery
