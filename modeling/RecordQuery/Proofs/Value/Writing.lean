import RecordQuery.Proofs.Token.Numeral
import RecordQuery.Proofs.Token.Quoted
import RecordQuery.Proofs.Value.Parts

namespace RecordQuery

namespace Value

open Token (Writes IsWord)

mutual

def lexemes : Value → List Lexeme
  | .null => [.word "null"]
  | .bool b => [.word (if b then "true" else "false")]
  | .int i => [.int i]
  | .float x => [.decimal x]
  | .string s => [.string s]
  | .list items =>
      .mark .openBracket :: ([.mark .comma].intercalate (itemLexemes items) ++
        [.mark .closeBracket])
  | .document columns =>
      .mark .openBrace :: ([.mark .comma].intercalate (columnLexemes columns) ++
        [.mark .closeBrace])
  | .param name => [.param name]

def itemLexemes : List Value → List (List Lexeme)
  | [] => []
  | v :: vs => v.lexemes :: itemLexemes vs

def columnLexemes : List (Named Value) → List (List Lexeme)
  | [] => []
  | ⟨name, v⟩ :: cs => (.string name :: .mark .colon :: v.lexemes) :: columnLexemes cs

end

theorem itemLexemes_eq_map (vs : List Value) : itemLexemes vs = vs.map lexemes := by
  induction vs with
  | nil => rfl
  | cons v vs ih => simp [itemLexemes, ih]

theorem columnLexemes_eq_map (cs : List Column) :
    columnLexemes cs = cs.map fun c => .string c.name :: .mark .colon :: c.value.lexemes := by
  induction cs with
  | nil => rfl
  | cons c cs ih => simp [columnLexemes, ih]

/-- What can be read back from the text of a value: numbers that are finite, and strings and keys
of plain characters. -/
def Plain : Value → Prop
  | .float x => x.isFinite = true
  | .string s => Text.Plain s
  | .document columns => ∀ c ∈ columns, Text.Plain c.name
  | _ => True

theorem isWord_null : IsWord "null" := by decide

theorem isWord_truth (b : Bool) : IsWord (if b then "true" else "false") := by
  cases b <;> decide

theorem writes_enclosed {ls : List Lexeme} {cs : List Char} {c d : Char} {m n : Mark}
    (hopen : Token.mark? c = some m) (hclose : Token.mark? d = some n) (hd : d ∈ Token.breakers)
    (h : Writes ls cs) : Writes (.mark m :: (ls ++ [.mark n])) (c :: (cs ++ [d])) :=
  (h.append (Writes.nil.mark hclose) (Token.breaks_cons hd)).mark hopen

mutual

def mapText (f : String → String) : Value → Value
  | .string s => .string (f s)
  | .list items => .list (mapItemText f items)
  | .document columns => .document (mapColumnText f columns)
  | .null => .null
  | .bool b => .bool b
  | .int i => .int i
  | .float x => .float x
  | .param name => .param name

def mapItemText (f : String → String) : List Value → List Value
  | [] => []
  | v :: vs => v.mapText f :: mapItemText f vs

def mapColumnText (f : String → String) : List (Named Value) → List (Named Value)
  | [] => []
  | ⟨name, v⟩ :: cs => ⟨f name, v.mapText f⟩ :: mapColumnText f cs

end

theorem mapItemText_eq_map (f : String → String) (vs : List Value) :
    mapItemText f vs = vs.map (mapText f) := by
  induction vs with
  | nil => rfl
  | cons v vs ih => simp [mapItemText, ih]

theorem mapColumnText_eq_map (f : String → String) (cs : List Column) :
    mapColumnText f cs = cs.map fun c => ⟨f c.name, c.value.mapText f⟩ := by
  induction cs with
  | nil => rfl
  | cons c cs ih => simp [mapColumnText, ih]

theorem mapText_of_plain {v : Value} (h : v.Each Plain) : v.mapText Text.reread = v := by
  induction v using inductParts with
  | null | bool | int | float | param => rfl
  | string s => exact congrArg Value.string (Text.reread_eq_iff.2 h)
  | list items ih =>
      rw [each_list] at h
      have hitems : items.map (mapText Text.reread) = items :=
        (List.map_congr_left fun v hv => ih v hv (h.2 v hv)).trans items.map_id'
      rw [mapText, mapItemText_eq_map, hitems]
  | document columns ih =>
      rw [each_document] at h
      have hcolumns : (columns.map fun c => (⟨Text.reread c.name, c.value.mapText Text.reread⟩ :
          Column)) = columns := by
        refine (List.map_congr_left fun c hc => ?_).trans columns.map_id'
        rw [Text.reread_eq_iff.2 (h.1 c hc), ih c hc (h.2 c hc)]
      rw [mapText, mapColumnText_eq_map, hcolumns]

def Finite : Value → Prop
  | .float x => x.isFinite = true
  | _ => True

theorem each_finite_of_plain {v : Value} (h : v.Each Plain) : v.Each Finite :=
  h.imp fun v hv => by cases v <;> first | exact hv | trivial

theorem writes_reread {v : Value} (hformed : v.Each Formed) (hfinite : v.Each Finite) :
    Writes (v.mapText Text.reread).lexemes v.text.toList := by
  induction v using inductParts with
  | null => exact .word isWord_null
  | bool b => exact .word (isWord_truth b)
  | int i =>
      rw [text, String.toList_ofList]
      exact .int i
  | float x =>
      rw [text, String.toList_ofList]
      exact .decimal hfinite rfl rfl
  | string s => exact .quoted s
  | list items ih =>
      rw [each_list] at hformed hfinite
      have hitems := Writes.commaJoined fun v hv => ih v hv (hformed.2 v hv) (hfinite.2 v hv)
      rw [mapText, mapItemText_eq_map, lexemes, itemLexemes_eq_map, List.map_map, text,
        itemTexts_eq_map, String.toList_append, String.toList_append]
      exact writes_enclosed rfl rfl (by decide) hitems
  | document columns ih =>
      rw [each_document] at hformed hfinite
      have hcolumn : ∀ c ∈ columns, Writes
          (.string (Text.reread c.name) :: .mark .colon :: (c.value.mapText Text.reread).lexemes)
          (Text.quote c.name ++ ": " ++ c.value.text).toList := by
        intro c hc
        have hvalue := ih c hc (hformed.2 c hc) (hfinite.2 c hc)
        have hcolon : Writes _ (':' :: ' ' :: c.value.text.toList) := hvalue.blank.mark rfl
        rw [String.append_assoc, String.toList_append, String.toList_append]
        exact (Writes.quoted c.name).append hcolon (Token.breaks_cons (by decide))
      have hcolumns := Writes.commaJoined hcolumn
      rw [mapText, mapColumnText_eq_map, lexemes, columnLexemes_eq_map, List.map_map, text,
        columnTexts_eq_map, String.toList_append, String.toList_append]
      exact writes_enclosed rfl rfl (by decide) hcolumns
  | param name =>
      rw [text, String.toList_append]
      exact .param hformed

theorem writes {v : Value} (hformed : v.Each Formed) (hplain : v.Each Plain) :
    Writes v.lexemes v.text.toList := by
  have hreread := writes_reread hformed (each_finite_of_plain hplain)
  rwa [mapText_of_plain hplain] at hreread

mutual

def depth : Value → Nat
  | .list items => itemDepth items + 1
  | .document columns => columnDepth columns + 1
  | .null | .bool _ | .int _ | .float _ | .string _ | .param _ => 0

def itemDepth : List Value → Nat
  | [] => 0
  | v :: vs => max v.depth (itemDepth vs)

def columnDepth : List (Named Value) → Nat
  | [] => 0
  | ⟨_, v⟩ :: cs => max v.depth (columnDepth cs)

end

theorem itemDepth_le {vs : List Value} {n : Nat} : itemDepth vs ≤ n ↔ ∀ v ∈ vs, v.depth ≤ n := by
  induction vs with
  | nil => simp [itemDepth]
  | cons v vs ih => rw [itemDepth, Nat.max_le, ih, List.forall_mem_cons]

theorem columnDepth_le {cs : List Column} {n : Nat} :
    columnDepth cs ≤ n ↔ ∀ c ∈ cs, c.value.depth ≤ n := by
  induction cs with
  | nil => simp [columnDepth]
  | cons c cs ih => rw [columnDepth, Nat.max_le, ih, List.forall_mem_cons]

theorem depth_mapText (f : String → String) (v : Value) : (v.mapText f).depth = v.depth := by
  induction v using inductParts with
  | null | bool | int | float | string | param => rfl
  | list items ih =>
      rw [mapText, mapItemText_eq_map, depth, depth]
      congr 1
      induction items with
      | nil => rfl
      | cons v vs ihs =>
          rw [List.forall_mem_cons] at ih
          rw [List.map_cons, itemDepth, itemDepth, ih.1, ihs ih.2]
  | document columns ih =>
      rw [mapText, mapColumnText_eq_map, depth, depth]
      congr 1
      induction columns with
      | nil => rfl
      | cons c cs ihs =>
          rw [List.forall_mem_cons] at ih
          rw [List.map_cons, columnDepth, columnDepth, ih.1, ihs ih.2]

mutual

/-- The value with the columns of its documents put together by their keys. -/
def merged : Value → Value
  | .list items => .list (mergedItems items)
  | .document columns => Written.documentOf (mergedColumns columns)
  | .null => .null
  | .bool b => .bool b
  | .int i => .int i
  | .float x => .float x
  | .string s => .string s
  | .param name => .param name

def mergedItems : List Value → List Value
  | [] => []
  | v :: vs => v.merged :: mergedItems vs

def mergedColumns : List (Named Value) → List (Named Value)
  | [] => []
  | ⟨name, v⟩ :: cs => ⟨name, v.merged⟩ :: mergedColumns cs

end

theorem mergedItems_eq_map (vs : List Value) : mergedItems vs = vs.map merged := by
  induction vs with
  | nil => rfl
  | cons v vs ih => simp [mergedItems, ih]

theorem mergedColumns_eq_map (cs : List Column) :
    mergedColumns cs = cs.map fun c => ⟨c.name, c.value.merged⟩ := by
  induction cs with
  | nil => rfl
  | cons c cs ih => simp [mergedColumns, ih]

end Value

namespace Written

open Value (Formed merged)

variable {limits : Limits}

theorem Items.of_forall {depth : Nat} : ∀ {vs : List Value}, vs ≠ [] →
    (∀ v ∈ vs, Literal limits depth v.lexemes v.merged) →
      Items limits depth ([.mark .comma].intercalate (vs.map Value.lexemes)) (vs.map merged)
  | [v], _, h => by simpa using Items.one (h v (by simp))
  | v :: w :: vs, _, h => by
      rw [List.forall_mem_cons] at h
      have hmore := Items.of_forall (List.cons_ne_nil w vs) h.2
      simp only [List.map_cons, List.intercalate_cons_cons, List.append_assoc]
      exact .cons h.1 hmore

theorem Entries.of_forall {depth : Nat} : ∀ {cs : List Column}, cs ≠ [] →
    (∀ c ∈ cs, Literal limits depth c.value.lexemes c.value.merged) →
      Entries limits depth ([.mark .comma].intercalate
        (cs.map fun c => .string c.name :: .mark .colon :: c.value.lexemes))
        (cs.map fun c => ⟨c.name, c.value.merged⟩)
  | [c], _, h => by simpa using Entries.one (.string c.name) (h c (by simp))
  | c :: d :: cs, _, h => by
      rw [List.forall_mem_cons] at h
      have hmore := Entries.of_forall (List.cons_ne_nil d cs) h.2
      simp only [List.map_cons, List.intercalate_cons_cons, List.append_assoc, List.cons_append]
      exact .cons (.string c.name) h.1 hmore

theorem Literal.of_merged {depth : Nat} {v : Value}
    (hdepth : depth + v.depth ≤ limits.literalDepth) : Literal limits depth v.lexemes v.merged := by
  induction v using Value.inductParts generalizing depth with
  | null => exact .word rfl
  | bool b => cases b <;> exact .word rfl
  | int i => exact .int i
  | float x => exact .decimal x
  | string s => exact .string s
  | list items ih =>
      rw [Value.lexemes, Value.itemLexemes_eq_map, merged, Value.mergedItems_eq_map]
      rw [Value.depth] at hdepth
      by_cases hnil : items = []
      · subst hnil
        exact .noItems (by omega)
      · refine .items (by omega) (Items.of_forall hnil fun v hv => ih v hv ?_)
        have := Value.itemDepth_le.1 (Nat.le_refl _) v hv
        omega
  | document columns ih =>
      rw [Value.lexemes, Value.columnLexemes_eq_map, merged, Value.mergedColumns_eq_map]
      rw [Value.depth] at hdepth
      by_cases hnil : columns = []
      · subst hnil
        exact .braces (by omega) .empty
      · have hroom : ∀ c ∈ columns, depth + 1 + c.value.depth ≤ limits.literalDepth := by
          intro c hc
          have := Value.columnDepth_le.1 (Nat.le_refl _) c hc
          omega
        have hentries := Entries.of_forall hnil fun c hc => ih c hc (hroom c hc)
        exact .braces (by omega) (.entries hentries)
  | param name => exact .param name

theorem documentOf_of_nodup {cs : List Column} (h : (cs.map Named.name).Nodup) :
    documentOf cs = .document cs :=
  congrArg Value.document (@Named.putAll_of_nodup _ [] cs h)

theorem merged_of_formed {v : Value} (h : v.Each Formed) : v.merged = v := by
  induction v using Value.inductParts with
  | null | bool | int | float | string | param => rfl
  | list items ih =>
      rw [Value.each_list] at h
      have hitems : items.map merged = items :=
        (List.map_congr_left fun v hv => ih v hv (h.2 v hv)).trans items.map_id'
      rw [merged, Value.mergedItems_eq_map, hitems]
  | document columns ih =>
      rw [Value.each_document] at h
      have hcolumns : (columns.map fun c => (⟨c.name, c.value.merged⟩ : Column)) = columns := by
        refine (List.map_congr_left fun c hc => ?_).trans columns.map_id'
        rw [ih c hc (h.2 c hc)]
      rw [merged, Value.mergedColumns_eq_map, hcolumns, documentOf_of_nodup h.1]

theorem Literal.at_root {v : Value} (hformed : v.Each Formed)
    (hdepth : v.depth ≤ limits.literalDepth) : Literal limits 0 v.lexemes v := by
  have hmerged : Literal limits 0 v.lexemes v.merged := .of_merged (by omega)
  rwa [merged_of_formed hformed] at hmerged

end Written

end RecordQuery
