import RecordQuery.Error

namespace RecordQuery.Offset

open String (Pos.Raw)

def bound (cs : List Char) : Pos.Raw := (String.ofList cs).rawEndPos

def slice? (text : String) (a b : Pos.Raw) : Option String :=
  if h : a.IsValid text ∧ b.IsValid text ∧ a ≤ b then
    some (text.slice (text.pos a h.1) (text.pos b h.2.1) h.2.2).copy
  else none

variable {text : String} {taken mid rest : List Char} {c : Char}

@[simp] theorem bound_nil : bound [] = 0 := rfl

theorem bound_append (cs ds : List Char) :
    (bound (cs ++ ds)).byteIdx = (bound cs).byteIdx + (bound ds).byteIdx := by
  simp only [bound, String.ofList_append, String.byteIdx_rawEndPos, String.utf8ByteSize_append]

theorem bound_concat (cs : List Char) (c : Char) : bound (cs ++ [c]) = bound cs + c := by
  apply String.Pos.Raw.ext
  simp [bound, String.ofList_append]

theorem bound_toList (text : String) : bound text.toList = text.rawEndPos := by
  rw [bound, String.ofList_toList]

theorem bound_lt_append (cs : List Char) (c : Char) (ds : List Char) :
    bound cs < bound (cs ++ c :: ds) := by
  have hc : 0 < (bound (c :: ds)).byteIdx := by
    simp only [bound, String.byteIdx_rawEndPos, String.ofList_cons, String.utf8ByteSize_append,
      String.utf8ByteSize_singleton]
    exact Nat.add_pos_left c.utf8Size_pos _
  rw [String.Pos.Raw.lt_iff, bound_append]
  exact Nat.lt_add_of_pos_right hc

theorem isValid_bound (h : text.toList = taken ++ rest) : (bound taken).IsValid text := by
  rw [String.Pos.Raw.isValid_iff_exists_append]
  refine ⟨String.ofList taken, String.ofList rest, ?_, rfl⟩
  rw [← String.ofList_append, ← h, String.ofList_toList]

theorem slice?_eq (h : text.toList = taken ++ mid ++ rest) :
    slice? text (bound taken) (bound (taken ++ mid)) = some (String.ofList mid) := by
  have hstart : (bound taken).IsValid text := isValid_bound (h.trans (List.append_assoc ..))
  have hend : (bound (taken ++ mid)).IsValid text := isValid_bound h
  have hle : bound taken ≤ bound (taken ++ mid) := by
    rw [String.Pos.Raw.le_iff, bound_append]
    exact Nat.le_add_right _ _
  rw [slice?, dif_pos ⟨hstart, hend, hle⟩]
  have htext : text = String.ofList taken ++ (String.ofList mid ++ String.ofList rest) := by
    rw [← String.ofList_append, ← String.ofList_append, ← List.append_assoc, ← h,
      String.ofList_toList]
  have hsplits : ∃ hle, (text.slice (text.pos _ hstart) (text.pos _ hend) hle).copy =
      String.ofList mid := by
    refine String.copy_slice_eq_iff_splits.2
      ⟨String.ofList taken, String.ofList rest, ⟨htext, String.offset_pos⟩, ⟨?_, ?_⟩⟩
    · rw [String.append_assoc, ← htext]
    · rw [String.offset_pos, bound, String.ofList_append]
  obtain ⟨_, hcopy⟩ := hsplits
  rw [hcopy]

theorem slice?_eq_rest (h : text.toList = taken ++ rest) :
    slice? text (bound taken) text.rawEndPos = some (String.ofList rest) := by
  have hrest : text.toList = taken ++ rest ++ [] := by rw [h, List.append_nil]
  rw [← bound_toList, h]
  exact slice?_eq hrest

end RecordQuery.Offset
