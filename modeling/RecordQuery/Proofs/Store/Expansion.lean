import RecordQuery.Proofs.Store.Asking

namespace RecordQuery

namespace Connective

theorem combine_and (a b : Bool) : Connective.and.combine (.ok a) (.ok b) = .ok (a && b) := by
  cases a <;> rfl

theorem combine_or (a b : Bool) : Connective.or.combine (.ok a) (.ok b) = .ok (a || b) := by
  cases a <;> rfl

end Connective

namespace Condition

variable {r : Record} {c d : Condition} {cs ds : List Condition}

def bounds (field : String) (low high : Value) : Condition :=
  .group .and [.compare .greaterEqual ⟨field, low⟩, .compare .lessEqual ⟨field, high⟩]

def anyOf (field : String) (vs : List Value) : Condition :=
  .group .or (vs.map fun v => .compare .equal ⟨field, v⟩)

mutual

/-- The second condition is the first with some comparisons written out, wherever they stand. -/
inductive Expands : Condition → Condition → Prop
  | kept (k : Comparison) (column : Column) : Expands (.compare k column) (.compare k column)
  | between (field : String) (low high : Value) :
      Expands (.compare .between ⟨field, .list [low, high]⟩) (bounds field low high)
  | isIn (field : String) (vs : List Value) :
      Expands (.compare .isIn ⟨field, .list vs⟩) (anyOf field vs)
  | group (k : Connective) {cs ds : List Condition} (h : AllExpand cs ds) :
      Expands (.group k cs) (.group k ds)
  | not {c d : Condition} (h : Expands c d) : Expands c.not d.not

inductive AllExpand : List Condition → List Condition → Prop
  | nil : AllExpand [] []
  | cons {c d : Condition} {cs ds : List Condition} (h : Expands c d) (hs : AllExpand cs ds) :
      AllExpand (c :: cs) (d :: ds)

end

theorem holds_bounds {field : String} {low high : Value} (hlow : low.params = [])
    (hhigh : high.params = []) :
    (bounds field low high).holds r = (compare .between ⟨field, .list [low, high]⟩).holds r := by
  have hclosed : (Value.list [low, high]).params = [] := by
    simp [Value.params, Value.itemParams, hlow, hhigh]
  rw [bounds, holds_group_pair, holds, holds, holds, comparisonHolds_of_closed _ hlow,
    comparisonHolds_of_closed _ hhigh, comparisonHolds_of_closed _ hclosed,
    Connective.combine_and]
  cases r.lookup field <;> rfl

theorem holds_anyOf {field : String} {vs : List Value} (h : (Value.list vs).params = []) :
    (anyOf field vs).holds r = (compare .isIn ⟨field, .list vs⟩).holds r := by
  rw [holds, comparisonHolds_of_closed _ h]
  rw [Value.params, Value.itemParams_eq_flatMap, List.flatMap_eq_nil_iff] at h
  induction vs with
  | nil =>
      cases r.lookup field <;> rfl
  | cons v vs ih =>
      rw [List.forall_mem_cons] at h
      rw [anyOf, List.map_cons, holds_group_cons, holds, comparisonHolds_of_closed _ h.1]
      change Connective.or.combine _ ((anyOf field vs).holds r) = _
      rw [ih h.2, Connective.combine_or]
      cases r.lookup field <;> rfl

mutual

theorem Expands.holds_eq : ∀ {c d : Condition}, Expands c d → c.params = [] →
    d.holds r = c.holds r
  | _, _, .kept _ _, _ => rfl
  | _, _, .between field low high, hclosed => by
      rw [params, Value.params, Value.itemParams_eq_flatMap, List.flatMap_eq_nil_iff] at hclosed
      exact holds_bounds (hclosed low (by simp)) (hclosed high (by simp))
  | _, _, .isIn field vs, hclosed => holds_anyOf hclosed
  | _, _, .group k h, hclosed => h.holds_eq k hclosed
  | _, _, .not h, hclosed => by rw [holds, holds, h.holds_eq hclosed]

theorem AllExpand.holds_eq : ∀ {cs ds : List Condition}, AllExpand cs ds → ∀ k : Connective,
    childParams cs = [] → (group k ds).holds r = (group k cs).holds r
  | _, _, .nil, _, _ => rfl
  | _, _, .cons h hs, k, hclosed => by
      obtain ⟨hfirst, hrest⟩ := List.append_eq_nil_iff.1 hclosed
      rw [holds_group_cons, holds_group_cons, h.holds_eq hfirst, hs.holds_eq k hrest]

end

theorem exists_holds_of_closed (r : Record) (h : c.params = []) : ∃ hit, c.holds r = .ok hit := by
  refine told_iff_not_asks.2 fun name hasks => ?_
  have hmem := hasks.mem_params
  rw [h] at hmem
  cases hmem

/-- Writing out any of the comparisons of a condition without parameters changes nothing: the two
conditions tell the same of every record, and selections and deletions that differ in them alone
come to the same and leave the same store. -/
theorem expanding_keeps_matches (h : c.Expands d) (hclosed : c.params = []) :
    (∀ r : Record, ∃ hit, c.holds r = .ok hit ∧ d.holds r = .ok hit) ∧
    (∀ (s : Store) (q : Selection),
      Store.backend.execute (.select { q with condition := some d }) s =
        Store.backend.execute (.select { q with condition := some c }) s) ∧
    ∀ (s : Store) (q : Deletion),
      Store.backend.execute (.delete { q with condition := some d }) s =
        Store.backend.execute (.delete { q with condition := some c }) s := by
  have hsame : ∀ r, d.holds r = c.holds r := fun r => h.holds_eq hclosed
  refine ⟨fun r => ?_, fun s q => ?_, fun s q => ?_⟩
  · obtain ⟨hit, hhit⟩ := exists_holds_of_closed r hclosed
    exact ⟨hit, hhit, (hsame r).trans hhit⟩
  · have hselect := @Store.select_congr (some d) s { q with condition := some c } fun r _ => hsame r
    exact congrArg (·, s) hselect
  · have hdelete := @Store.delete_congr s { q with condition := some c } (some d) fun r _ => hsame r
    exact congrArg (mapOutcome _) hdelete

def banded : Condition :=
  .not (.group .or [.compare .between ⟨"age", .list [.int 30, .int 50]⟩,
    .compare .isIn ⟨"home.city", .list [.string "Rome", .null]⟩])

def bandedOut : Condition :=
  .not (.group .or [bounds "age" (.int 30) (.int 50), anyOf "home.city" [.string "Rome", .null]])

/-- One record is within the bounds, one is of an age that compares with neither and has a member of
the list on a path, and one has neither field. -/
def dwellers : Store :=
  ⟨[⟨"God", [⟨⟨"God", [⟨"age", .int 40⟩]⟩, none⟩,
    ⟨⟨"God", [⟨"age", .string "old"⟩, ⟨"home", .document [⟨"city", .string "Rome"⟩]⟩]⟩, none⟩,
    ⟨⟨"God", [⟨"name", .null⟩]⟩, none⟩]⟩]⟩

theorem banded_keeps_matches :
    banded.Expands bandedOut ∧ banded.params = [] ∧
    (Store.backend.execute (.select ⟨"God", [], some bandedOut, [], 0, 0⟩) dwellers).1 =
      .ok [⟨"God", [⟨"name", .null⟩]⟩] ∧
    (Store.backend.execute (.delete ⟨"God", ["name"], some bandedOut⟩) dwellers).2.records "God" =
      [⟨"God", [⟨"age", .int 40⟩]⟩,
        ⟨"God", [⟨"age", .string "old"⟩, ⟨"home", .document [⟨"city", .string "Rome"⟩]⟩]⟩,
        ⟨"God", []⟩] := by
  have hexpands : banded.Expands bandedOut :=
    .not (.group .or (.cons (.between _ _ _) (.cons (.isIn _ _) .nil)))
  obtain ⟨-, hselect, hdelete⟩ := expanding_keeps_matches hexpands rfl
  refine ⟨hexpands, rfl, ?_, ?_⟩
  · rw [hselect dwellers ⟨"God", [], none, [], 0, 0⟩]
    rfl
  · rw [hdelete dwellers ⟨"God", ["name"], none⟩]
    rfl

end Condition

end RecordQuery
