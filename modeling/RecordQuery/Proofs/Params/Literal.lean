import RecordQuery.Proofs.Value.Parts

namespace RecordQuery

namespace Value

theorem params_of_convertScalar {t : ScalarType} {v w : Value} (h : v.convertScalar t = .ok w) :
    w.params = [] := by
  cases t <;>
    · obtain ⟨a, -, rfl⟩ := Outcome.map_eq_ok.1 h
      rfl

theorem params_of_convert {t : ScalarType} {v w : Value} (h : v.convert t = .ok w) :
    w.params = [] := by
  induction v using inductParts generalizing w with
  | null | bool | int | float | string | document | param => exact params_of_convertScalar h
  | list items ih =>
      obtain ⟨ws, hws, rfl⟩ := Outcome.map_eq_ok.1 h
      rw [params, itemParams_eq_flatMap, List.flatMap_eq_nil_iff]
      exact forall_mem_of_convertItems (fun v hv w => ih v hv) hws

theorem mem_params_list {items : List Value} {name : String} :
    name ∈ (Value.list items).params ↔ ∃ v ∈ items, name ∈ v.params := by
  rw [params, itemParams_eq_flatMap, List.mem_flatMap]

theorem mem_params_document {columns : List Column} {name : String} :
    name ∈ (Value.document columns).params ↔ ∃ c ∈ columns, name ∈ c.value.params := by
  rw [params, columnParams_eq_flatMap, List.mem_flatMap]

end Value

namespace Written

variable {limits : Limits} {name : String}

theorem params_of_wordValue? {word : String} {v : Value} (h : wordValue? word = some v) :
    v.params = [] := by
  unfold wordValue? at h
  split at h
  · cases h
    rfl
  · split at h
    · cases h
      rfl
    · split at h <;> cases h
      rfl

theorem mem_params_documentOf {cs : List Column} (h : name ∈ (documentOf cs).params) :
    ∃ c ∈ cs, name ∈ c.value.params := by
  obtain ⟨c, hc, hname⟩ := Value.mem_params_document.1 h
  have hall := @Named.forall_mem_putAll _
    (fun c : Column => name ∈ c.value.params → ∃ d ∈ cs, name ∈ d.value.params) [] cs (by simp)
    fun d hd hname => ⟨d, hd, hname⟩
  exact hall c hc hname

mutual

theorem Literal.spelled : ∀ {depth : Nat} {ls : List Lexeme} {v : Value},
    Literal limits depth ls v → name ∈ v.params → .param name ∈ ls
  | _, _, _, .string _, h | _, _, _, .int _, h | _, _, _, .decimal _, h => by cases h
  | _, _, _, .param _, h => by
      rw [List.mem_singleton.1 h]
      exact List.mem_singleton_self _
  | _, _, _, .word hword, h => by
      rw [params_of_wordValue? hword] at h
      cases h
  | _, _, _, .conversion _ _ _ _ hw, h => by
      rw [Value.params_of_convert hw] at h
      cases h
  | _, _, _, .braces _ hv, h => List.mem_cons_of_mem _ (hv.spelled h)
  | _, _, _, .noItems _, h => by cases h
  | _, _, _, .items _ hvs, h => by
      obtain ⟨v, hv, hname⟩ := Value.mem_params_list.1 h
      exact List.mem_cons_of_mem _ (List.mem_append_left _ (hvs.spelled v hv hname))

theorem Braces.spelled : ∀ {depth : Nat} {ls : List Lexeme} {v : Value},
    Braces limits depth ls v → name ∈ v.params → .param name ∈ ls
  | _, _, _, .empty, h => by cases h
  | _, _, _, .entries hcs, h => by
      obtain ⟨c, hc, hname⟩ := mem_params_documentOf h
      exact List.mem_append_left _ (hcs.spelled c hc hname)
  | _, _, _, .items hvs, h => by
      obtain ⟨v, hv, hname⟩ := Value.mem_params_list.1 h
      exact List.mem_append_left _ (hvs.spelled v hv hname)

theorem Items.spelled : ∀ {depth : Nat} {ls : List Lexeme} {vs : List Value},
    Items limits depth ls vs → ∀ v ∈ vs, name ∈ v.params → .param name ∈ ls
  | _, _, _, .one hv => List.forall_mem_singleton.2 hv.spelled
  | _, _, _, .cons hv hvs => by
      refine List.forall_mem_cons.2 ⟨fun h => ?_, fun w hw h => ?_⟩
      · exact List.mem_append_left _ (hv.spelled h)
      · exact List.mem_append_right _ (List.mem_cons_of_mem _ (hvs.spelled w hw h))

theorem Entries.spelled : ∀ {depth : Nat} {ls : List Lexeme} {cs : List Column},
    Entries limits depth ls cs → ∀ c ∈ cs, name ∈ c.value.params → .param name ∈ ls
  | _, _, _, .one _ hv => by
      refine List.forall_mem_singleton.2 fun h => ?_
      exact List.mem_cons_of_mem _ (List.mem_cons_of_mem _ (hv.spelled h))
  | _, _, _, .cons _ hv hcs => by
      refine List.forall_mem_cons.2 ⟨fun h => ?_, fun c hc h => ?_⟩ <;>
        refine List.mem_cons_of_mem _ (List.mem_cons_of_mem _ ?_)
      · exact List.mem_append_left _ (hv.spelled h)
      · exact List.mem_append_right _ (List.mem_cons_of_mem _ (hcs.spelled c hc h))

end

def Mentions (text name : String) : Prop :=
  ∃ ts, Token.ofChars text.toList = .ok ts ∧ .param name ∈ ts.map Token.lexeme

theorem mentions_of_literal {text : String} {v : Value} (h : literal text = .ok v)
    (hname : name ∈ v.params) : Mentions text name := by
  obtain ⟨-, ts, ls, hts, hls, hs⟩ := literal_eq_ok.1 h
  refine ⟨ts, hts, ?_⟩
  rw [hs.map_lexeme]
  exact List.mem_append_left _ (hls.spelled hname)

theorem isParam_of_literal {text : String} {v : Value} (h : literal text = .ok v) :
    v.isParam = false :=
  (literal_eq_ok.1 h).1

end Written

end RecordQuery
