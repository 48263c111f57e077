import RecordQuery.Proofs.Grammar.Literal
import RecordQuery.Proofs.Params.Subst
import RecordQuery.Proofs.Token.Writes

namespace RecordQuery

namespace Named

variable {α : Type} {P : Named α → Prop} {name : String} {v : α} {cs : List (Named α)}

theorem put_of_not_mem (h : name ∉ cs.map Named.name) : put name v cs = cs ++ [⟨name, v⟩] := by
  induction cs with
  | nil => rfl
  | cons c cs ih =>
      simp only [List.map_cons, List.mem_cons, not_or] at h
      rw [put, if_neg (Ne.symm h.1), ih h.2, List.cons_append]

theorem map_name_put (name : String) (v : α) (cs : List (Named α)) :
    (put name v cs).map Named.name =
      if name ∈ cs.map Named.name then cs.map Named.name else cs.map Named.name ++ [name] := by
  induction cs with
  | nil => rfl
  | cons c cs ih =>
      rw [put]
      by_cases hc : c.name = name
      · simp [hc]
      · rw [if_neg hc, List.map_cons, ih]
        by_cases hmem : name ∈ cs.map Named.name
        · have hcons : name ∈ (c :: cs).map Named.name := List.mem_cons_of_mem _ hmem
          rw [if_pos hmem, if_pos hcons, List.map_cons]
        · have hcons : name ∉ (c :: cs).map Named.name := by
            simp only [List.map_cons, List.mem_cons, not_or]
            exact ⟨Ne.symm hc, hmem⟩
          rw [if_neg hmem, if_neg hcons, List.map_cons, List.cons_append]

theorem nodup_put (h : (cs.map Named.name).Nodup) : ((put name v cs).map Named.name).Nodup := by
  rw [map_name_put]
  split
  · exact h
  · next hmem =>
      refine List.nodup_append.2 ⟨h, by simp, ?_⟩
      rintro m hm _ hname rfl
      rw [List.mem_singleton.1 hname] at hm
      exact hmem hm

theorem forall_mem_put (hv : P ⟨name, v⟩) (hcs : ∀ c ∈ cs, P c) : ∀ c ∈ put name v cs, P c := by
  induction cs with
  | nil => simpa [put] using hv
  | cons c cs ih =>
      rw [List.forall_mem_cons] at hcs
      rw [put]
      split
      · exact List.forall_mem_cons.2 ⟨hv, hcs.2⟩
      · exact List.forall_mem_cons.2 ⟨hcs.1, ih hcs.2⟩

def putAll (cs ds : List (Named α)) : List (Named α) :=
  ds.foldl (fun columns c => put c.name c.value columns) cs

theorem nodup_putAll {ds : List (Named α)} (h : (cs.map Named.name).Nodup) :
    ((putAll cs ds).map Named.name).Nodup := by
  induction ds generalizing cs with
  | nil => exact h
  | cons d ds ih => exact ih (nodup_put h)

theorem forall_mem_putAll {ds : List (Named α)} (hcs : ∀ c ∈ cs, P c) (hds : ∀ d ∈ ds, P d) :
    ∀ c ∈ putAll cs ds, P c := by
  induction ds generalizing cs with
  | nil => exact hcs
  | cons d ds ih =>
      rw [List.forall_mem_cons] at hds
      exact ih (forall_mem_put hds.1 hcs) hds.2

theorem putAll_cons_of_not_mem {d : Named α} (h : d.name ∉ cs.map Named.name)
    (ds : List (Named α)) : putAll cs (d :: ds) = putAll (cs ++ [d]) ds := by
  rw [← put_of_not_mem h]
  rfl

theorem putAll_of_nodup {ds : List (Named α)} (h : ((cs ++ ds).map Named.name).Nodup) :
    putAll cs ds = cs ++ ds := by
  induction ds generalizing cs with
  | nil => simp [putAll]
  | cons d ds ih =>
      have hnew : d.name ∉ cs.map Named.name := by
        intro hmem
        rw [List.map_append, List.nodup_append] at h
        exact h.2.2 d.name hmem d.name (by simp) rfl
      rw [putAll_cons_of_not_mem hnew, ih (by simpa using h), List.append_assoc,
        List.singleton_append]

theorem length_put (name : String) (v : α) (cs : List (Named α)) :
    (put name v cs).length = if name ∈ cs.map Named.name then cs.length else cs.length + 1 := by
  have hnames := congrArg List.length (map_name_put name v cs)
  rw [List.length_map] at hnames
  rw [hnames]
  split <;> simp

theorem length_putAll_le (cs ds : List (Named α)) :
    (putAll cs ds).length ≤ cs.length + ds.length := by
  induction ds generalizing cs with
  | nil => exact Nat.le_refl _
  | cons d ds ih =>
      have hput : (put d.name d.value cs).length ≤ cs.length + 1 := by
        rw [length_put]
        split <;> omega
      have hall := ih (put d.name d.value cs)
      rw [List.length_cons]
      exact Nat.le_trans hall (by omega)

theorem putAll_of_length_eq {ds : List (Named α)}
    (h : (putAll cs ds).length = cs.length + ds.length) : putAll cs ds = cs ++ ds := by
  induction ds generalizing cs with
  | nil => simp [putAll]
  | cons d ds ih =>
      by_cases hmem : d.name ∈ cs.map Named.name
      · have hall := length_putAll_le (put d.name d.value cs) ds
        have hlength : (putAll (put d.name d.value cs) ds).length = _ := h
        rw [length_put, if_pos hmem, hlength, List.length_cons] at hall
        omega
      · rw [putAll_cons_of_not_mem hmem] at h ⊢
        rw [ih (by simpa [Nat.add_assoc, Nat.add_comm 1] using h), List.append_assoc,
          List.singleton_append]

end Named

namespace Value

@[elab_as_elim]
theorem inductParts {P : Value → Prop} (null : P .null) (bool : ∀ b, P (.bool b))
    (int : ∀ i, P (.int i)) (float : ∀ x, P (.float x)) (string : ∀ s, P (.string s))
    (list : ∀ items, (∀ v ∈ items, P v) → P (.list items))
    (document : ∀ columns : List Column, (∀ c ∈ columns, P c.value) → P (.document columns))
    (param : ∀ name, P (.param name)) (v : Value) : P v := by
  refine @Value.rec P (fun vs => ∀ v ∈ vs, P v) (fun cs => ∀ c ∈ cs, P c.value)
    (fun c => P c.value) null bool int float string list document param ?_ ?_ ?_ ?_ ?_ v
  · simp
  · exact fun v vs hv hvs => List.forall_mem_cons.2 ⟨hv, hvs⟩
  · simp
  · exact fun c cs hc hcs => List.forall_mem_cons.2 ⟨hc, hcs⟩
  · exact fun name v hv => hv

variable {P : Value → Prop}

mutual

def Each (P : Value → Prop) : Value → Prop
  | .list items => P (.list items) ∧ ItemsEach P items
  | .document columns => P (.document columns) ∧ ColumnsEach P columns
  | .null => P .null
  | .bool b => P (.bool b)
  | .int i => P (.int i)
  | .float x => P (.float x)
  | .string s => P (.string s)
  | .param name => P (.param name)

def ItemsEach (P : Value → Prop) : List Value → Prop
  | [] => True
  | v :: vs => v.Each P ∧ ItemsEach P vs

def ColumnsEach (P : Value → Prop) : List (Named Value) → Prop
  | [] => True
  | ⟨_, v⟩ :: cs => v.Each P ∧ ColumnsEach P cs

end

theorem itemsEach_iff {vs : List Value} : ItemsEach P vs ↔ ∀ v ∈ vs, v.Each P := by
  induction vs with
  | nil => simp [ItemsEach]
  | cons v vs ih => simp [ItemsEach, ih]

theorem columnsEach_iff {cs : List Column} : ColumnsEach P cs ↔ ∀ c ∈ cs, c.value.Each P := by
  induction cs with
  | nil => simp [ColumnsEach]
  | cons c cs ih => simp [ColumnsEach, ih]

theorem each_list {items : List Value} :
    (Value.list items).Each P ↔ P (.list items) ∧ ∀ v ∈ items, v.Each P := by
  rw [Each, itemsEach_iff]

theorem each_document {columns : List Column} :
    (Value.document columns).Each P ↔
      P (.document columns) ∧ ∀ c ∈ columns, c.value.Each P := by
  rw [Each, columnsEach_iff]

theorem Each.imp {Q : Value → Prop} (hPQ : ∀ v, P v → Q v) {v : Value} (h : v.Each P) :
    v.Each Q := by
  induction v using inductParts with
  | null | bool | int | float | string | param => exact hPQ _ h
  | list items ih =>
      rw [each_list] at h ⊢
      exact ⟨hPQ _ h.1, fun v hv => ih v hv (h.2 v hv)⟩
  | document columns ih =>
      rw [each_document] at h ⊢
      exact ⟨hPQ _ h.1, fun c hc => ih c hc (h.2 c hc)⟩

def Keyed : Value → Prop
  | .document columns => (columns.map Named.name).Nodup
  | _ => True

/-- A document has no key twice, and a parameter has a name that can be written. -/
def Formed : Value → Prop
  | .document columns => (columns.map Named.name).Nodup
  | .param name => Token.IsName name
  | _ => True

theorem Each.keyed {v : Value} (h : v.Each Formed) : v.Each Keyed :=
  h.imp fun v hv => by cases v <;> first | exact hv | trivial

theorem each_formed_of_keyed {v : Value} (hkeyed : v.Each Keyed) (hclosed : v.params = []) :
    v.Each Formed := by
  induction v using inductParts with
  | null | bool | int | float | string => trivial
  | list items ih =>
      rw [each_list] at hkeyed ⊢
      rw [params, itemParams_eq_flatMap, List.flatMap_eq_nil_iff] at hclosed
      exact ⟨trivial, fun v hv => ih v hv (hkeyed.2 v hv) (hclosed v hv)⟩
  | document columns ih =>
      rw [each_document] at hkeyed ⊢
      rw [params, columnParams_eq_flatMap, List.flatMap_eq_nil_iff] at hclosed
      exact ⟨hkeyed.1, fun c hc => ih c hc (hkeyed.2 c hc) (hclosed c hc)⟩
  | param name => cases hclosed

theorem each_formed_subst {σ : String → Value} {v : Value} (hv : v.Each Formed)
    (hσ : ∀ n ∈ v.params, (σ n).Each Formed) : (v.subst σ).Each Formed := by
  induction v using inductParts with
  | null | bool | int | float | string => trivial
  | list items ih =>
      rw [each_list] at hv
      rw [params, itemParams_eq_flatMap, List.forall_mem_flatMap] at hσ
      rw [subst, substItems_eq_map, each_list]
      refine ⟨trivial, fun w hw => ?_⟩
      obtain ⟨v, hmem, rfl⟩ := List.mem_map.1 hw
      exact ih v hmem (hv.2 v hmem) (hσ v hmem)
  | document columns ih =>
      rw [each_document] at hv
      rw [params, columnParams_eq_flatMap] at hσ
      rw [subst, substColumns_eq_map, each_document]
      -- the keys of a document stay as they are
      refine ⟨?_, fun w hw => ?_⟩
      · simpa [Formed, List.map_map, Function.comp_def] using hv.1
      · obtain ⟨c, hmem, rfl⟩ := List.mem_map.1 hw
        exact ih c hmem (hv.2 c hmem) fun n hn => hσ n (List.mem_flatMap.2 ⟨c, hmem, hn⟩)
  | param name => exact hσ name (by simp [params])

theorem formed_of_convertScalar {t : ScalarType} {v w : Value} (h : v.convertScalar t = .ok w) :
    w.Each Formed := by
  cases t <;>
    · obtain ⟨a, -, rfl⟩ := Outcome.map_eq_ok.1 h
      trivial

theorem forall_mem_of_convertItems {t : ScalarType} {vs ws : List Value}
    (ih : ∀ v ∈ vs, ∀ w, v.convert t = .ok w → P w)
    (h : convertItems t vs = .ok ws) : ∀ w ∈ ws, P w := by
  induction vs generalizing ws with
  | nil =>
      cases h
      simp
  | cons v vs ihs =>
      rw [List.forall_mem_cons] at ih
      obtain ⟨w, hw, h⟩ := Outcome.bind_eq_ok.1 h
      obtain ⟨ws, hws, h⟩ := Outcome.bind_eq_ok.1 h
      cases h
      exact List.forall_mem_cons.2 ⟨ih.1 w hw, ihs ih.2 hws⟩

theorem formed_of_convert {t : ScalarType} {v w : Value} (h : v.convert t = .ok w) :
    w.Each Formed := by
  induction v using inductParts generalizing w with
  | null | bool | int | float | string | document | param => exact formed_of_convertScalar h
  | list items ih =>
      obtain ⟨ws, hws, rfl⟩ := Outcome.map_eq_ok.1 h
      exact each_list.2 ⟨trivial, forall_mem_of_convertItems (fun v hv w => ih v hv) hws⟩

end Value

namespace Written

variable {limits : Limits}

open Token (Spelled)

theorem formed_of_wordValue? {word : String} {v : Value} (h : wordValue? word = some v) :
    v.Each Value.Formed := by
  unfold wordValue? at h
  split at h
  · cases h
    trivial
  · split at h
    · cases h
      trivial
    · split at h <;> cases h
      trivial

theorem formed_documentOf {cs : List Column} (h : ∀ c ∈ cs, c.value.Each Value.Formed) :
    (documentOf cs).Each Value.Formed :=
  Value.each_document.2
    ⟨@Named.nodup_putAll _ [] cs List.nodup_nil, Named.forall_mem_putAll (by simp) h⟩

mutual

theorem Literal.formed : ∀ {depth : Nat} {ls : List Lexeme} {v : Value},
    Literal limits depth ls v → (∀ l ∈ ls, Spelled l) → v.Each Value.Formed
  | _, _, _, .string _, _ | _, _, _, .int _, _ | _, _, _, .decimal _, _ => trivial
  | _, _, _, .param name, h => h (.param name) (by simp)
  | _, _, _, .word hword, _ => formed_of_wordValue? hword
  | _, _, _, .conversion _ _ _ _ hw, _ => Value.formed_of_convert hw
  | _, _, _, .braces _ hv, h => hv.formed (by simp_all)
  | _, _, _, .noItems _, _ => Value.each_list.2 ⟨trivial, by simp⟩
  | _, _, _, .items _ hvs, h => Value.each_list.2 ⟨trivial, hvs.formed (by simp_all)⟩

theorem Braces.formed : ∀ {depth : Nat} {ls : List Lexeme} {v : Value},
    Braces limits depth ls v → (∀ l ∈ ls, Spelled l) → v.Each Value.Formed
  | _, _, _, .empty, _ => Value.each_document.2 ⟨List.nodup_nil, by simp⟩
  | _, _, _, .entries hcs, h => formed_documentOf (hcs.formed (by simp_all))
  | _, _, _, .items hvs, h => Value.each_list.2 ⟨trivial, hvs.formed (by simp_all)⟩

theorem Items.formed : ∀ {depth : Nat} {ls : List Lexeme} {vs : List Value},
    Items limits depth ls vs → (∀ l ∈ ls, Spelled l) → ∀ v ∈ vs, v.Each Value.Formed
  | _, _, _, .one hv, h => by simpa using hv.formed h
  | _, _, _, .cons hv hvs, h =>
      List.forall_mem_cons.2 ⟨hv.formed (by simp_all), hvs.formed (by simp_all)⟩

theorem Entries.formed : ∀ {depth : Nat} {ls : List Lexeme} {cs : List Column},
    Entries limits depth ls cs → (∀ l ∈ ls, Spelled l) → ∀ c ∈ cs, c.value.Each Value.Formed
  | _, _, _, .one _ hv, h => by simpa using hv.formed (by simp_all)
  | _, _, _, .cons _ hv hcs, h =>
      List.forall_mem_cons.2 ⟨hv.formed (by simp_all), hcs.formed (by simp_all)⟩

end

end Written

end RecordQuery
