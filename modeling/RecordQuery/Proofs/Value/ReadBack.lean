import RecordQuery.Proofs.Value.Writing

namespace RecordQuery.Value

open Written (documentOf)

variable {v : Value}

/-- What the text of a value is read as. -/
def reread (v : Value) : Value := (v.mapText Text.reread).merged

theorem reread_list (items : List Value) :
    (Value.list items).reread = .list (items.map reread) := by
  rw [reread, mapText, mapItemText_eq_map, merged, mergedItems_eq_map, List.map_map]
  rfl

theorem reread_document (columns : List Column) :
    (Value.document columns).reread =
      documentOf (columns.map fun c => ⟨Text.reread c.name, c.value.reread⟩) := by
  rw [reread, mapText, mapColumnText_eq_map, merged, mergedColumns_eq_map, List.map_map]
  rfl

theorem reread_of_plain (hformed : v.Each Formed) (hplain : v.Each Plain) : v.reread = v := by
  rw [reread, mapText_of_plain hplain, Written.merged_of_formed hformed]

theorem plain_of_reread (hfinite : v.Each Finite) (h : v.reread = v) : v.Each Plain := by
  induction v using inductParts with
  | null | bool | int | param => trivial
  | float x => exact hfinite
  | string s =>
      simp only [reread, mapText, merged, string.injEq] at h
      exact Text.reread_eq_iff.1 h
  | list items ih =>
      rw [each_list] at hfinite ⊢
      rw [reread_list, list.injEq] at h
      have hitems := List.map_inj_left.1 (h.trans items.map_id'.symm)
      exact ⟨trivial, fun v hv => ih v hv (hfinite.2 v hv) (hitems v hv)⟩
  | document columns ih =>
      rw [each_document] at hfinite ⊢
      -- nothing was put together, since as many columns are left
      have hput : Named.putAll [] (columns.map fun c => ⟨Text.reread c.name, c.value.reread⟩) =
          columns := by
        rw [reread_document] at h
        exact document.inj h
      have hlength := congrArg List.length hput
      rw [Named.putAll_of_length_eq (by simpa using hlength), List.nil_append] at hput
      have hcolumns : ∀ c ∈ columns, (⟨Text.reread c.name, c.value.reread⟩ : Column) = c :=
        List.map_inj_left.1 (hput.trans columns.map_id'.symm)
      refine ⟨fun c hc => ?_, fun c hc => ?_⟩
      · exact Text.reread_eq_iff.1 (congrArg Named.name (hcolumns c hc))
      · exact ih c hc (hfinite.2 c hc) (congrArg Named.value (hcolumns c hc))

theorem reread_eq_iff (hformed : v.Each Formed) (hfinite : v.Each Finite) :
    v.reread = v ↔ v.Each Plain :=
  ⟨plain_of_reread hfinite, reread_of_plain hformed⟩

theorem isParam_reread (v : Value) : v.reread.isParam = v.isParam := by
  cases v <;> rfl

theorem literal_text (hformed : v.Each Formed) (hfinite : v.Each Finite)
    (hparam : v.isParam = false) (hdepth : v.depth ≤ ({} : Limits).literalDepth) :
    Written.literal v.text = .ok v.reread := by
  obtain ⟨ts, hts, hs⟩ := (writes_reread hformed hfinite).eof
  refine Written.literal_eq_ok.2 ⟨(isParam_reread v).trans hparam, ts, _, hts, ?_, hs⟩
  apply Written.Literal.of_merged
  rwa [Nat.zero_add, depth_mapText]

theorem literal_text_eq_self_iff (hformed : v.Each Formed) (hfinite : v.Each Finite)
    (hparam : v.isParam = false) (hdepth : v.depth ≤ ({} : Limits).literalDepth) :
    Written.literal v.text = .ok v ↔ v.Each Plain := by
  rw [literal_text hformed hfinite hparam hdepth, Except.ok.injEq]
  exact reread_eq_iff hformed hfinite

theorem string_lexed (s : String) :
    (Token.ofChars (Value.string s).text.toList).map (·.map Token.lexeme) =
      .ok [.string (Text.reread s)] := by
  obtain ⟨ts, hts, hs⟩ := (Token.Writes.quoted s).eof
  rw [text, hts, Outcome.ok_map, hs.map_lexeme]
  rfl

/-- A string is one token, which has lost the backslashes of its escapes, and it is read back where
that changes nothing. A value is read back where that holds of its strings and of its keys. -/
theorem quoted_read_back_iff (s : String) (v : Value) :
    ((Token.ofChars (string s).text.toList).map (·.map Token.lexeme) =
          .ok [.string (Text.reread s)] ∧
        Written.literal (string s).text = .ok (.string (Text.reread s)) ∧
        (Text.reread s = s ↔ Text.Plain s)) ∧
      (v.Each Formed → v.Each Finite → v.isParam = false →
        v.depth ≤ ({} : Limits).literalDepth →
          Written.literal v.text = .ok v.reread ∧
            (Written.literal v.text = .ok v ↔ v.Each Plain)) := by
  constructor
  · exact ⟨string_lexed s, literal_text trivial trivial rfl (Nat.zero_le _), Text.reread_eq_iff⟩
  · intro hformed hfinite hparam hdepth
    exact ⟨literal_text hformed hfinite hparam hdepth,
      literal_text_eq_self_iff hformed hfinite hparam hdepth⟩

def tabbed : Value := .document [⟨"first\tname", .string "Ada \"L\""⟩]

theorem formed_tabbed : tabbed.Each Formed := ⟨by simp [Formed], trivial, trivial⟩

theorem tabbed_read_back : Written.literal tabbed.text = .ok tabbed := by
  have hkey : ∀ c ∈ [(⟨"first\tname", .string "Ada \"L\""⟩ : Column)], Text.Plain c.name :=
    List.forall_mem_singleton.2 (by decide +kernel)
  have hstring : Text.Plain "Ada \"L\"" := by decide +kernel
  exact ((quoted_read_back_iff "first\tname" tabbed).2 formed_tabbed ⟨trivial, trivial, trivial⟩ rfl
    (by decide)).2.2 ⟨hkey, hstring, trivial⟩

def accented : Value := .string "e\u0301"

def nullKeyed : Value := .document [⟨"\x00", .null⟩]

/-- The escape of an accent is read as letters and braces, and that of a null as a digit. -/
theorem accent_and_null_misread :
    Written.literal accented.text ≠ .ok accented ∧
      Written.literal nullKeyed.text ≠ .ok nullKeyed := by
  have haccent : ¬ Text.Plain "e\u0301" := by decide +kernel
  have hnull : ¬ Text.Plain "\x00" := by decide +kernel
  have hnullKeyed : nullKeyed.Each Formed := ⟨by simp [Formed], trivial, trivial⟩
  refine ⟨fun h => ?_, fun h => ?_⟩
  · exact haccent ((literal_text_eq_self_iff (v := accented) trivial trivial rfl (by decide)).1 h)
  · rw [literal_text_eq_self_iff hnullKeyed ⟨trivial, trivial, trivial⟩ rfl (by decide)] at h
    exact hnull (h.1 ⟨"\x00", .null⟩ (by simp))

end RecordQuery.Value
