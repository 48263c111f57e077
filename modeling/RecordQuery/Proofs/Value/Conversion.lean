import RecordQuery.Proofs.Outcome.Collected
import RecordQuery.Proofs.Token.Character
import RecordQuery.Proofs.Value.Parts
import RecordQuery.Value.Convert

namespace RecordQuery

namespace Text

theorem afterBlanks_of_forall {cs : List Char} (h : ∀ c ∈ cs, isBlank c = false) :
    afterBlanks cs = cs := by
  cases cs with
  | nil => rfl
  | cons c cs => exact afterBlanks_cons_of_not_blank (h c List.mem_cons_self)

theorem trim_of_forall {cs : List Char} (h : ∀ c ∈ cs, isBlank c = false) : trim cs = cs := by
  have hreverse : ∀ c ∈ cs.reverse, isBlank c = false := fun c hc => h c (List.mem_reverse.1 hc)
  rw [trim, afterBlanks_of_forall h, afterBlanks_of_forall hreverse, List.reverse_reverse]

end Text

namespace Number

theorem isBlank_of_mem_writeInt64 {i : Int64} : ∀ c ∈ writeInt64 i, Text.isBlank c = false := by
  have hdigits : ∀ c ∈ Nat.toDigits 10 i.toInt.natAbs, Text.isBlank c = false := by
    intro c hc
    exact Token.isBlank_of_isDigit (Nat.isDigit_of_mem_toDigits (by decide) (by decide) hc)
  unfold writeInt64 writeInt
  split
  · exact List.forall_mem_cons.2 ⟨by decide, hdigits⟩
  · exact hdigits

end Number

namespace Value

variable {t : ScalarType} {v w : Value} {vs ws : List Value} {e : QueryError}

def scalarType? : Value → Option ScalarType
  | .int _ => some .int
  | .float _ => some .float
  | .bool _ => some .bool
  | .string _ => some .string
  | .null | .list _ | .document _ | .param _ => none

mutual

/-- The values at the ends of nested lists; a value that is no list is its own leaf. -/
def leaves : Value → List Value
  | .list items => itemLeaves items
  | v => [v]

def itemLeaves : List Value → List Value
  | [] => []
  | v :: vs => v.leaves ++ itemLeaves vs

end

theorem leaves_list (items : List Value) : (list items).leaves = items.flatMap leaves := by
  rw [leaves]
  induction items with
  | nil => rfl
  | cons v vs ih => rw [itemLeaves, ih, List.flatMap_cons]

theorem convertItems_eq_mapM (t : ScalarType) (vs : List Value) :
    convertItems t vs = vs.mapM (convert t) := by
  induction vs with
  | nil => rfl
  | cons v vs ih =>
      rw [convertItems, ih, List.mapM_cons]
      rfl

theorem convert_list (t : ScalarType) (items : List Value) :
    (list items).convert t = (items.mapM (convert t)).map list := by
  rw [convert, convertItems_eq_mapM]

section Settling

theorem convert_of_convertScalar (h : v.convertScalar t = .ok w) : w.convert t = .ok w := by
  cases t <;>
    · obtain ⟨a, -, rfl⟩ := Outcome.map_eq_ok.1 h
      rfl

theorem convert_of_convert (h : v.convert t = .ok w) : w.convert t = .ok w := by
  induction v using inductParts generalizing w with
  | null | bool | int | float | string | document | param => exact convert_of_convertScalar h
  | list items ih =>
      rw [convert_list] at h
      obtain ⟨ws, hws, rfl⟩ := Outcome.map_eq_ok.1 h
      have hsettled : ∀ w ∈ ws, w.convert t = .ok w := by
        intro w hw
        obtain ⟨v, hv, hvw⟩ := Outcome.mem_of_mapM hws w hw
        exact ih v hv hvw
      rw [convert_list, Outcome.mapM_eq_ok hsettled, List.map_id', Outcome.ok_map]

end Settling

section Texts

theorem convert_text_of_int (i : Int64) : (string (int i).text).convert .int = .ok (int i) := by
  have hread : Number.readInt64? (Text.trim (int i).text.toList) = some i := by
    rw [text, String.toList_ofList, Text.trim_of_forall Number.isBlank_of_mem_writeInt64,
      Number.readInt64?_writeInt64]
  rw [convert, convertScalar, toInt64, hread]
  rfl

theorem exists_convert_text (hfloat : t ≠ .float) (h : v.scalarType? = some t) :
    ∃ s, v.convert .string = .ok s ∧ s.convert t = .ok v := by
  cases v with
  | int i =>
      cases h
      exact ⟨_, rfl, convert_text_of_int i⟩
  | bool b =>
      cases h
      cases b <;> exact ⟨_, rfl, rfl⟩
  | string s =>
      cases h
      exact ⟨_, rfl, rfl⟩
  | float x =>
      cases h
      exact absurd rfl hfloat
  | null | list | document | param => cases h

theorem exists_convert_texts (hfloat : t ≠ .float) (h : ∀ u ∈ v.leaves, u.scalarType? = some t) :
    ∃ s, v.convert .string = .ok s ∧ s.convert t = .ok v := by
  induction v using inductParts with
  | null | bool | int | float | string | document | param =>
      exact exists_convert_text hfloat (h _ List.mem_cons_self)
  | list items ih =>
      rw [leaves_list] at h
      have hitems : ∀ v ∈ items, ∃ s, v.convert .string = .ok s ∧ s.convert t = .ok v := by
        intro v hv
        exact ih v hv fun u hu => h u (List.mem_flatMap.2 ⟨v, hv, hu⟩)
      obtain ⟨texts, htexts, hback⟩ := Outcome.exists_mapM_inverse hitems
      refine ⟨list texts, ?_, ?_⟩
      · rw [convert_list, htexts, Outcome.ok_map]
      · rw [convert_list, hback, Outcome.ok_map]

end Texts

section Leaves

theorem mapM_leaf_eq_error (u : Value) :
    [u].mapM (convert t) = .error e ↔ u.convert t = .error e := by
  rw [Outcome.mapM_cons_eq_error]
  refine or_iff_left ?_
  rintro ⟨-, h⟩
  cases h

theorem mapM_leaves_eq_error (v : Value) :
    v.leaves.mapM (convert t) = .error e ↔ v.convert t = .error e := by
  induction v using inductParts generalizing e with
  | null | bool | int | float | string | document | param => exact mapM_leaf_eq_error _
  | list items ih =>
      rw [leaves_list, convert_list, Outcome.map_eq_error]
      induction items generalizing e with
      | nil => rfl
      | cons v vs ihs =>
          rw [List.forall_mem_cons] at ih
          rw [List.flatMap_cons, Outcome.mapM_append_eq_error, Outcome.mapM_cons_eq_error, ih.1,
            Outcome.exists_ok_congr fun e => ih.1, ihs ih.2]

theorem convert_fails_iff (v : Value) :
    (∃ e, v.convert t = .error e) ↔ ∃ u ∈ v.leaves, ∃ e, u.convert t = .error e := by
  constructor
  · rintro ⟨e, he⟩
    obtain ⟨before, u, after, hleaves, -, hu⟩ :=
      Outcome.mapM_eq_error.1 ((mapM_leaves_eq_error v).2 he)
    rw [hleaves]
    exact ⟨u, List.mem_append_right _ List.mem_cons_self, e, hu⟩
  · rintro ⟨u, hmem, e, hu⟩
    cases hv : v.convert t with
    | error e' => exact ⟨e', rfl⟩
    | ok w =>
        obtain ⟨ws, hws⟩ := (Outcome.exists_ok_congr fun _ => mapM_leaves_eq_error v).2 ⟨w, hv⟩
        obtain ⟨_, hconverted⟩ := Outcome.exists_ok_of_mapM hws u hmem
        rw [hconverted] at hu
        cases hu

end Leaves

/-- What a value is converted to is converted to itself. A value whose leaves all are integers, all
truth values or all strings comes back when it is converted to strings and then to their type. A
value is converted exactly if each of its leaves is; where some are not, the first of them gives the
error. -/
theorem converting_settles (t : ScalarType) (v : Value) :
    (∀ w, v.convert t = .ok w → w.convert t = .ok w) ∧
    (t ≠ .float → (∀ u ∈ v.leaves, u.scalarType? = some t) →
      ∃ s, v.convert .string = .ok s ∧ s.convert t = .ok v) ∧
    ((∃ e, v.convert t = .error e) ↔ ∃ u ∈ v.leaves, ∃ e, u.convert t = .error e) ∧
    ∀ e, v.convert t = .error e ↔ ∃ before u after, v.leaves = before ++ u :: after ∧
      (∀ b ∈ before, ∃ w, b.convert t = .ok w) ∧ u.convert t = .error e := by
  refine ⟨fun w => convert_of_convert, exists_convert_texts, convert_fails_iff v, fun e => ?_⟩
  rw [← mapM_leaves_eq_error, Outcome.mapM_eq_error]

def ends : Value := .list [.int Int64.minValue, .list [.int Int64.maxValue, .list []]]

theorem ends_settles :
    (∃ s, ends.convert .string = .ok s ∧ s.convert .int = .ok ends) ∧
    (Value.list [.string " 7 ", .list [.bool true, .null]]).convert .int =
      .error (.conversion "true" .int64) := by
  constructor
  · refine (converting_settles .int ends).2.1 (by decide) ?_
    decide
  · refine ((converting_settles .int _).2.2.2 _).2
      ⟨[.string " 7 "], .bool true, [.null], rfl, ?_, rfl⟩
    exact List.forall_mem_singleton.2 ⟨.int 7, rfl⟩

end Value

end RecordQuery
