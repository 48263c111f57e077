import RecordQuery.Proofs.Value.Data
import RecordQuery.Proofs.Value.Writing
import RecordQuery.Store.Match

/-!
Values with the columns of their documents in rising order of the names, at every depth. This is
what becomes of a value that is written as data and taken for a value again. Neither the equality of
stored values, nor their comparison, nor the order of rows depends on the order of columns.
-/

namespace RecordQuery

open Named (ranked)

namespace Value

mutual

/-- The value with the columns of its documents in rising order of their names. -/
def filed : Value → Value
  | .list items => .list (filedItems items)
  | .document columns => .document (ranked (filedColumns columns))
  | .null => .null
  | .bool b => .bool b
  | .int i => .int i
  | .float x => .float x
  | .string s => .string s
  | .param name => .param name

def filedItems : List Value → List Value
  | [] => []
  | v :: vs => v.filed :: filedItems vs

def filedColumns : List Column → List Column
  | [] => []
  | ⟨name, v⟩ :: cs => ⟨name, v.filed⟩ :: filedColumns cs

end

theorem filedItems_eq_map (vs : List Value) : filedItems vs = vs.map filed := by
  induction vs with
  | nil => rfl
  | cons v vs ih => simp [filedItems, ih]

theorem filedColumns_eq_map (cs : List Column) :
    filedColumns cs = cs.map fun c => ⟨c.name, c.value.filed⟩ := by
  induction cs with
  | nil => rfl
  | cons c cs ih => simp [filedColumns, ih]

section Columns

variable {name : String} {cs : List Column}

theorem filedColumns_ranked (cs : List Column) :
    filedColumns (ranked cs) = ranked (filedColumns cs) := by
  rw [filedColumns_eq_map, filedColumns_eq_map]
  exact (Named.ranked_map _ cs).symm

theorem toJsonFields_ranked (cs : List Column) :
    toJsonFields (ranked cs) = ranked (toJsonFields cs) := by
  rw [toJsonFields_eq_map, toJsonFields_eq_map]
  exact (Named.ranked_map _ cs).symm

theorem ofJsonFields_ranked (cs : List (Named Json)) :
    ofJsonFields (ranked cs) = ranked (ofJsonFields cs) := by
  rw [ofJsonFields_eq_map, ofJsonFields_eq_map]
  exact (Named.ranked_map _ cs).symm

theorem map_name_filedColumns (cs : List Column) :
    (filedColumns cs).map Named.name = cs.map Named.name := by
  rw [filedColumns_eq_map, List.map_map]
  rfl

theorem map_name_toJsonFields (cs : List Column) :
    (toJsonFields cs).map Named.name = cs.map Named.name := by
  rw [toJsonFields_eq_map, List.map_map]
  rfl

theorem find?_ranked_filedColumns (h : (cs.map Named.name).Nodup) (name : String) :
    Named.find? name (ranked (filedColumns cs)) = (Named.find? name cs).map filed := by
  rw [← map_name_filedColumns] at h
  rw [Named.find?_ranked h, filedColumns_eq_map, Named.find?_map]

theorem ofFields_toJsonFields (h : (cs.map Named.name).Nodup) :
    Json.ofFields (toJsonFields cs) = .object (ranked (toJsonFields cs)) := by
  rw [← map_name_toJsonFields] at h
  exact Json.ofFields_of_nodup h

theorem ofFields_toJsonFields_ranked (h : (cs.map Named.name).Nodup) :
    Json.ofFields (toJsonFields (ranked cs)) = Json.ofFields (toJsonFields cs) := by
  rw [ofFields_toJsonFields h, ofFields_toJsonFields (Named.nodup_ranked h), toJsonFields_ranked,
    Named.ranked_ranked]

end Columns

theorem filedColumns_filedColumns {columns : List Column}
    (ih : ∀ c ∈ columns, c.value.filed.filed = c.value.filed) :
    filedColumns (filedColumns columns) = filedColumns columns := by
  rw [filedColumns_eq_map, filedColumns_eq_map, List.map_map]
  exact List.map_congr_left fun c hc => congrArg _ (ih c hc)

theorem filed_filed (v : Value) : v.filed.filed = v.filed := by
  induction v using inductParts with
  | null | bool | int | float | string | param => rfl
  | list items ih =>
      rw [filed, filed, filedItems_eq_map, filedItems_eq_map, List.map_map]
      exact congrArg _ (List.map_congr_left ih)
  | document columns ih =>
      rw [filed, filed, filedColumns_ranked, filedColumns_filedColumns ih, Named.ranked_ranked]

theorem ofJson_toJson {v : Value} (hkeyed : v.Each Keyed) (hfinite : v.Each Finite)
    (hclosed : v.params = []) : ofJson v.toJson = v.filed := by
  induction v using inductParts with
  | null | bool | string => rfl
  | int i => simp only [toJson, ofJson, Number.toInt64?_toInt, filed]
  | float x =>
      have hx : x.isFinite = true := hfinite
      simp only [toJson, hx, if_true, ofJson, filed]
  | list items ih =>
      rw [each_list] at hkeyed hfinite
      rw [params, itemParams_eq_flatMap, List.flatMap_eq_nil_iff] at hclosed
      rw [toJson, ofJson, filed, toJsonItems_eq_map, ofJsonItems_eq_map, filedItems_eq_map,
        List.map_map]
      exact congrArg _ (List.map_congr_left fun v hv =>
        ih v hv (hkeyed.2 v hv) (hfinite.2 v hv) (hclosed v hv))
  | document columns ih =>
      rw [each_document] at hkeyed hfinite
      rw [params, columnParams_eq_flatMap, List.flatMap_eq_nil_iff] at hclosed
      have hcolumns : ofJsonFields (toJsonFields columns) = filedColumns columns := by
        rw [toJsonFields_eq_map, ofJsonFields_eq_map, filedColumns_eq_map, List.map_map]
        exact List.map_congr_left fun c hc =>
          congrArg _ (ih c hc (hkeyed.2 c hc) (hfinite.2 c hc) (hclosed c hc))
      rw [toJson, ofFields_toJsonFields hkeyed.1, ofJson, ofJsonFields_ranked, hcolumns, filed]
  | param name => cases hclosed

theorem toJsonFields_filedColumns {columns : List Column}
    (ih : ∀ c ∈ columns, c.value.filed.toJson = c.value.toJson) :
    toJsonFields (filedColumns columns) = toJsonFields columns := by
  rw [toJsonFields_eq_map, toJsonFields_eq_map, filedColumns_eq_map, List.map_map]
  exact List.map_congr_left fun c hc => congrArg _ (ih c hc)

theorem toJson_filed {v : Value} (h : v.Each Keyed) : v.filed.toJson = v.toJson := by
  induction v using inductParts with
  | null | bool | int | float | string | param => rfl
  | list items ih =>
      rw [each_list] at h
      rw [filed, toJson, toJson, toJsonItems_eq_map, toJsonItems_eq_map, filedItems_eq_map,
        List.map_map]
      exact congrArg _ (List.map_congr_left fun v hv => ih v hv (h.2 v hv))
  | document columns ih =>
      rw [each_document] at h
      have hnodup : ((filedColumns columns).map Named.name).Nodup := by
        rw [map_name_filedColumns]
        exact h.1
      rw [filed, toJson, toJson, ofFields_toJsonFields_ranked hnodup,
        toJsonFields_filedColumns fun c hc => ih c hc (h.2 c hc)]

section Comparing

variable {v w : Value}

theorem compare?_filed (v w : Value) : v.filed.compare? w = v.compare? w := by
  cases v <;> cases w <;> rfl

theorem columnsWithin_iff {as bs : List Column} : columnsWithin as bs = true ↔
    ∀ a ∈ as, ∃ b, Named.find? a.name bs = some b ∧ a.value.equal b = true := by
  induction as with
  | nil => simp [columnsWithin]
  | cons a as ih =>
      rw [columnsWithin, Bool.and_eq_true, ih, List.forall_mem_cons]
      refine and_congr_left fun _ => ?_
      cases Named.find? a.name bs <;> simp

theorem equalItems_filed {items : List Value} (ih : ∀ v ∈ items, ∀ w, v.filed.equal w = v.equal w)
    (others : List Value) : equalItems (filedItems items) others = equalItems items others := by
  induction items generalizing others with
  | nil => rfl
  | cons v vs ihs =>
      rw [List.forall_mem_cons] at ih
      cases others with
      | nil => rfl
      | cons w ws => rw [filedItems, equalItems, equalItems, ih.1 w, ihs ih.2 ws]

theorem columnsWithin_filed {columns : List Column}
    (ih : ∀ c ∈ columns, ∀ w, c.value.filed.equal w = c.value.equal w) (others : List Column) :
    columnsWithin (ranked (filedColumns columns)) others = columnsWithin columns others := by
  rw [Bool.eq_iff_iff, columnsWithin_iff, columnsWithin_iff]
  simp only [Named.mem_ranked, filedColumns_eq_map, List.forall_mem_map]
  refine forall₂_congr fun c hc => ?_
  simp only [ih c hc]

theorem equal_document (as bs : List Column) :
    (document as).equal (document bs) = (as.length = bs.length && columnsWithin as bs) := rfl

theorem equal_filed (v w : Value) : v.filed.equal w = v.equal w := by
  induction v using inductParts generalizing w with
  | null | bool | int | float | string | param => rfl
  | list items ih =>
      cases w with
      | list others => exact equalItems_filed ih others
      | null | bool | int | float | string | document | param => rfl
  | document columns ih =>
      cases w with
      | document others =>
          have hlength : (ranked (filedColumns columns)).length = columns.length := by
            rw [(Named.ranked_perm _).length_eq, filedColumns_eq_map, List.length_map]
          rw [filed, equal_document, equal_document, hlength, columnsWithin_filed ih]
      | null | bool | int | float | string | list | param => rfl

theorem holds_filed (k : Comparison) (v w : Value) : k.holds v.filed w = k.holds v w := by
  have hcompare : v.filed.compare? = v.compare? := funext (compare?_filed v)
  have hequal : v.filed.equal = v.equal := funext (equal_filed v)
  cases k with
  | equal => exact equal_filed v w
  | isIn =>
      cases w with
      | list ws => exact congrArg ws.any hequal
      | null | bool | int | float | string | document | param => exact equal_filed v _
  | like => cases v <;> rfl
  | greater => exact congrArg (fun f => decide (f w = some .gt)) hcompare
  | less => exact congrArg (fun f => decide (f w = some .lt)) hcompare
  | greaterEqual => exact congrArg (fun f => Comparison.isAtLeast (f w)) hcompare
  | lessEqual => exact congrArg (fun f => Comparison.isAtMost (f w)) hcompare
  | between =>
      match w with
      | .list [low, high] =>
          exact congrArg (fun f => Comparison.isAtLeast (f low) && Comparison.isAtMost (f high)) hcompare
      | .list [] | .list [_] | .list (_ :: _ :: _ :: _) => rfl
      | .null | .bool _ | .int _ | .float _ | .string _ | .document _ | .param _ => rfl

theorem orderItems_filed {items : List Value}
    (ih : ∀ v ∈ items, ∀ w : Value, v.filed.order w.filed = v.order w) (others : List Value) :
    orderItems (filedItems items) (filedItems others) = orderItems items others := by
  induction items generalizing others with
  | nil => cases others <;> rfl
  | cons v vs ihs =>
      rw [List.forall_mem_cons] at ih
      cases others with
      | nil => rfl
      | cons w ws =>
          rw [filedItems, filedItems, orderItems, orderItems, ih.1 w, ihs ih.2 ws]

theorem order_filed (v w : Value) : v.filed.order w.filed = v.order w := by
  induction v using inductParts generalizing w with
  | null | bool | int | float | string | document | param => cases w <;> rfl
  | list items ih =>
      cases w with
      | list others => exact orderItems_filed ih others
      | null | bool | int | float | string | document | param => rfl

theorem orderAbsentFirst_filed (v w : Option Value) :
    orderAbsentFirst (v.map filed) (w.map filed) = orderAbsentFirst v w := by
  cases v with
  | none => cases w <;> rfl
  | some v =>
      cases w with
      | none => rfl
      | some w => exact order_filed v w

end Comparing

end Value

end RecordQuery
