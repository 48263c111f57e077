import RecordQuery.Proofs.Draft.Standing

namespace RecordQuery

namespace Draft

section Runs

variable {fields : List String} {cs : List Call} {c : Call} {d : Draft}

structure Stands (cs : List Call) (d : Draft) : Prop where
  noError : d.error = none
  condition : Standing (cs.filter Call.inCondition) d.filter
  sorting : Ranked (cs.filter Call.inSorting) d.sorts d.pending

theorem filter_concat_of_pos {p : Call → Bool} (cs : List Call) (h : p c = true) :
    (cs ++ [c]).filter p = cs.filter p ++ [c] := by
  simp [h]

theorem filter_concat_of_neg {p : Call → Bool} (cs : List Call) (h : p c = false) :
    (cs ++ [c]).filter p = cs.filter p := by
  simp [h]

theorem Stands.call_condition (h : Stands cs d) (hc : c.inCondition = true)
    (hfluent : c.Fluent) :
    (∃ m, c.misuse? (cs.filter Call.inCondition).getLast? = some m ∧
      (d.call c).error = some (.misuse m)) ∨
    (c.misuse? (cs.filter Call.inCondition).getLast? = none ∧ Stands (cs ++ [c]) (d.call c)) := by
  have hsorting : c.inSorting = false := by
    cases c <;> first | rfl | cases hc
  rw [call_of_inCondition d hc]
  obtain ⟨fields, entity, f, sorts, pending, limit, skip, error⟩ := d
  obtain ⟨rfl, hcondition, hranked⟩ := h
  obtain ⟨m, hm, hstep⟩ | ⟨hm, g, hstep, hstanding⟩ := hcondition.call hc hfluent
  · refine .inl ⟨m, hm, ?_⟩
    simp only [refine, hstep]
  · refine .inr ⟨hm, ?_⟩
    simp only [refine, hstep]
    rw [← filter_concat_of_pos cs hc] at hstanding
    rw [← filter_concat_of_neg cs hsorting] at hranked
    exact ⟨rfl, hstanding, hranked⟩

theorem Stands.call (h : Stands cs d) (hfluent : c.Fluent) :
    (∃ m, c.misuse? (lastOfPart c cs) = some m ∧ (d.call c).error = some (.misuse m)) ∨
      (c.misuse? (lastOfPart c cs) = none ∧ Stands (cs ++ [c]) (d.call c)) := by
  cases c with
  | first | link | not | test => exact h.call_condition rfl hfluent
  | orderBy name =>
      have hranked := h.sorting.orderBy name
      obtain ⟨sorts, pending, hcall⟩ := call_orderBy d name
      rw [← filter_concat_of_pos cs rfl] at hranked
      refine .inr ⟨rfl, ?_, ?_, hranked⟩
      · rw [hcall]
        exact h.noError
      · rw [hcall, filter_concat_of_neg cs rfl]
        exact h.condition
  | direction direction =>
      obtain hrefused | ⟨hm, herror, hranked⟩ := h.sorting.direction h.noError direction
      · exact .inl hrefused
      · obtain ⟨sorts, pending, error, hcall⟩ := call_direction d direction
        rw [← filter_concat_of_pos cs rfl] at hranked
        refine .inr ⟨hm, herror, ?_, hranked⟩
        rw [hcall, filter_concat_of_neg cs rfl]
        exact h.condition
  | source | limit | skip =>
      refine .inr ⟨rfl, h.noError, ?_, ?_⟩
      · rw [filter_concat_of_neg cs rfl]
        exact h.condition
      · rw [filter_concat_of_neg cs rfl]
        exact h.sorting

theorem stands_ofFields (fields : List String) : Stands [] (ofFields fields) where
  noError := rfl
  condition := .made none none
  sorting := .settled [] fun _ h => by cases h

theorem stands_of_error (hfluent : ∀ c ∈ cs, c.Fluent)
    (h : ((ofFields fields).calls cs).error = none) : Stands cs ((ofFields fields).calls cs) := by
  induction cs using List.reverseRecOn with
  | nil => exact stands_ofFields fields
  | append_singleton cs c ih =>
      rw [List.forall_mem_append, List.forall_mem_singleton] at hfluent
      rw [calls_concat] at h ⊢
      cases herror : ((ofFields fields).calls cs).error with
      | some e =>
          rw [error_call_of_some herror] at h
          cases h
      | none =>
          obtain ⟨m, -, hm⟩ | ⟨-, hstands⟩ := (ih hfluent.1 herror).call hfluent.2
          · rw [hm] at h
            cases h
          · exact hstands

theorem Stands.inTurn (h : Stands cs d) : InTurn cs := by
  obtain ⟨ss, hcalls, -⟩ := h.sorting.exists_keys
  exact ⟨h.condition.exists_asking, ss, hcalls ▸ List.prefix_refl _⟩

theorem error_calls_eq_none (fields : List String) (hfluent : ∀ c ∈ cs, c.Fluent) :
    ((ofFields fields).calls cs).error = none ↔ InTurn cs := by
  refine ⟨fun h => (stands_of_error hfluent h).inTurn, fun h => ?_⟩
  induction cs using List.reverseRecOn with
  | nil => rfl
  | append_singleton cs c ih =>
      rw [List.forall_mem_append, List.forall_mem_singleton] at hfluent
      have herror := ih hfluent.1 h.of_append
      obtain ⟨m, hm, -⟩ | ⟨-, hstands⟩ := (stands_of_error hfluent.1 herror).call hfluent.2
      · rw [h.misuse?] at hm
        cases hm
      · rw [calls_concat]
        exact hstands.noError

theorem error_calls_of_misuse (fields : List String) {before after : List Call}
    (hfluent : ∀ c' ∈ before ++ c :: after, c'.Fluent) (hbefore : InTurn before)
    (hc : ¬InTurn (before ++ [c])) :
    ∃ m, c.misuse? (lastOfPart c before) = some m ∧
      ((ofFields fields).calls (before ++ c :: after)).error = some (.misuse m) := by
  rw [List.forall_mem_append, List.forall_mem_cons] at hfluent
  have hstands := stands_of_error hfluent.1 ((error_calls_eq_none fields hfluent.1).2 hbefore)
  obtain ⟨m, hm, herror⟩ | ⟨-, hstands'⟩ := hstands.call hfluent.2.1
  · rw [calls_append]
    exact ⟨m, hm, error_calls_of_some herror after⟩
  · exact absurd hstands'.inTurn hc

end Runs

section Building

variable {fields : List String} {cs : List Call}

theorem fluent_of_calls {a : Asking} (h : ∀ c ∈ a.calls, c.Fluent) :
    ∀ asked ∈ a.asked, asked.test.Fluent := by
  have htest : ∀ asked : Asked, Call.test asked.test ∈ asked.calls := by
    intro asked
    rw [Asked.calls]
    exact List.mem_concat_self
  intro asked hasked
  refine h (.test asked.test) ?_
  rcases List.mem_cons.1 hasked with rfl | hmore
  · exact List.mem_append_left _ (List.mem_cons_of_mem _ (htest a.first))
  · obtain ⟨next, hnext, rfl⟩ := List.mem_map.1 hmore
    exact List.mem_append_right _
      (List.mem_flatMap.2 ⟨next, hnext, List.mem_cons_of_mem _ (htest next.2)⟩)

theorem condition_eq_of_calls {a b : Option Asking}
    (hfluent : ∀ c ∈ a.elim [] Asking.calls, c.Fluent)
    (h : a.elim [] Asking.calls = b.elim [] Asking.calls) :
    a.map Asking.condition = b.map Asking.condition := by
  cases a with
  | none =>
      cases b with
      | none => rfl
      | some b => cases h
  | some a =>
      cases b with
      | none => cases h
      | some b =>
          rw [Option.elim_some, Option.elim_some] at h
          rw [Option.elim_some] at hfluent
          obtain ⟨k, ha⟩ := calls_asking (d := ofFields []) rfl (fluent_of_calls hfluent)
          rw [h] at hfluent ha
          obtain ⟨k', hb⟩ := calls_asking (d := ofFields []) rfl (fluent_of_calls hfluent)
          have hfilter := congrArg (fun d : Draft => d.filter.condition) (ha.symm.trans hb)
          exact hfilter

theorem keys_eq_of_calls {ss ss' : List Written.SortField}
    (h : ss.flatMap Listing.sortCalls = ss'.flatMap Listing.sortCalls) :
    ss.map Written.SortField.key = ss'.map Written.SortField.key := by
  obtain ⟨sorts, pending, hcalls, hkeys⟩ := calls_sorts (d := ofFields []) rfl ss
  obtain ⟨sorts', pending', hcalls', hkeys'⟩ := calls_sorts (d := ofFields []) rfl ss'
  rw [h, hcalls'] at hcalls
  rw [← hcalls] at hkeys
  exact hkeys.symm.trans hkeys'

theorem getLast?_filterMap_concat {α : Type} (read : Call → Option α) (cs : List Call) (c : Call) :
    ((cs ++ [c]).filterMap read).getLast? = (read c).or (cs.filterMap read).getLast? := by
  rw [List.filterMap_append, List.getLast?_append]
  cases hc : read c <;> simp [hc]

theorem calls_set (fields : List String) (cs : List Call) :
    ((ofFields fields).calls cs).fields = fields ∧
    ((ofFields fields).calls cs).entity = (cs.filterMap Call.source?).getLast? ∧
    ((ofFields fields).calls cs).limit = (cs.filterMap Call.limit?).getLast?.getD 0 ∧
    ((ofFields fields).calls cs).skip = (cs.filterMap Call.skip?).getLast?.getD 0 := by
  induction cs using List.reverseRecOn with
  | nil => exact ⟨rfl, rfl, rfl, rfl⟩
  | append_singleton cs c ih =>
      obtain ⟨hfields, hentity, hlimit, hskip⟩ := call_set ((ofFields fields).calls cs) c
      simp only [calls_concat, getLast?_filterMap_concat, Option.getD_or]
      rw [hfields, hentity, hlimit, hskip, ih.1, ih.2.1, ih.2.2.1, ih.2.2.2]
      exact ⟨rfl, rfl, rfl, rfl⟩

/-- Calls that ask for a statement as a whole: one of the last entity, with comparisons and sort
fields that are all there is of the condition and of the sorting. -/
structure Complete (cs : List Call) (entity : String) (asking : Option Asking)
    (sorts : List Written.SortField) : Prop where
  source : (cs.filterMap Call.source?).getLast? = some entity
  condition : cs.filter Call.inCondition = asking.elim [] Asking.calls
  sorting : cs.filter Call.inSorting = sorts.flatMap Listing.sortCalls

section Finishing

variable {verb : Verb} {entity : String} {asking : Option Asking}
  {sorts : List Written.SortField}

theorem Complete.inTurn (h : Complete cs entity asking sorts) : InTurn cs := by
  refine ⟨?_, sorts, h.sorting ▸ List.prefix_refl _⟩
  rw [h.condition]
  exact (Standing.made asking none).exists_asking

theorem Complete.finish (h : Complete cs entity asking sorts) (fields : List String)
    (hfluent : ∀ c ∈ cs, c.Fluent) :
    ((ofFields fields).calls cs).finish verb = .ok (entity, asking.map Asking.condition) ∧
      ((ofFields fields).calls cs).keys = sorts.map Written.SortField.key := by
  have hstands := stands_of_error hfluent ((error_calls_eq_none fields hfluent).2 h.inTurn)
  have hentity := (calls_set fields cs).2.1.trans h.source
  obtain ⟨sorts', hsorting, hkeys⟩ := hstands.sorting.exists_keys
  rw [← keys_eq_of_calls (h.sorting.symm.trans hsorting)] at hkeys
  obtain ⟨asking', hasking, hcondition⟩ | ⟨hopen, -⟩ := hstands.condition.finish
  · have hcalls : ∀ c ∈ asking.elim [] Asking.calls, c.Fluent := by
      rw [← h.condition]
      exact fun c hc => hfluent c (List.mem_filter.1 hc).1
    rw [← condition_eq_of_calls hcalls (h.condition.symm.trans hasking)] at hcondition
    exact ⟨finish_eq_ok.2 ⟨hstands.noError, hentity, hcondition⟩, hkeys⟩
  · exact absurd h.condition (hopen asking)

theorem exists_complete_of_finish {condition : Option Condition} (hfluent : ∀ c ∈ cs, c.Fluent)
    (h : ((ofFields fields).calls cs).finish verb = .ok (entity, condition)) :
    ∃ asking sorts, Complete cs entity asking sorts ∧ condition = asking.map Asking.condition ∧
      ((ofFields fields).calls cs).keys = sorts.map Written.SortField.key := by
  obtain ⟨hnone, hentity, hfilter⟩ := finish_eq_ok.1 h
  have hstands := stands_of_error hfluent hnone
  rw [(calls_set fields cs).2.1] at hentity
  obtain ⟨sorts, hsorting, hkeys⟩ := hstands.sorting.exists_keys
  obtain ⟨asking, hasking, hcondition⟩ | ⟨-, hdangling⟩ := hstands.condition.finish
  · rw [hfilter, Except.ok.injEq] at hcondition
    exact ⟨asking, sorts, ⟨hentity, hasking, hsorting⟩, hcondition, hkeys⟩
  · rw [hfilter] at hdangling
    cases hdangling

end Finishing

/-- What comes of a chain of calls, told by the calls alone: a statement where they ask for one;
else the first call out of turn, a missing entity, or a field that is left without its comparison,
in this order. -/
structure Judged {α : Type} (verb : Verb) (cs : List Call) (built : Outcome α)
    (value : String → Option Condition → List SortKey → α) : Prop where
  accepted : ∀ b, built = .ok b ↔ ∃ entity asking sorts, Complete cs entity asking sorts ∧
    b = value entity (asking.map Asking.condition) (sorts.map Written.SortField.key)
  misused : ∀ before c after, cs = before ++ c :: after → InTurn before → ¬InTurn (before ++ [c]) →
    ∃ m, c.misuse? (lastOfPart c before) = some m ∧ built = .error (.misuse m)
  sourceless : InTurn cs → cs.filterMap Call.source? = [] → built = .error (.missingEntity verb)
  dangling : InTurn cs → cs.filterMap Call.source? ≠ [] →
    (∀ asking : Option Asking, cs.filter Call.inCondition ≠ asking.elim [] Asking.calls) →
      built = .error (.misuse .danglingField)

theorem judged_of_finish (fields : List String) {α : Type} {verb : Verb} {built : Outcome α}
    {value : String → Option Condition → List SortKey → α} (hfluent : ∀ c ∈ cs, c.Fluent)
    (h : built = (((ofFields fields).calls cs).finish verb).map fun x =>
      value x.1 x.2 ((ofFields fields).calls cs).keys) : Judged verb cs built value := by
  obtain ⟨-, hentity, -, -⟩ := calls_set fields cs
  have herror := error_calls_eq_none fields hfluent
  subst h
  refine ⟨fun b => ⟨fun h => ?_, ?_⟩, fun before c after hcs hbefore hc => ?_,
    fun hturn hsource => ?_, fun hturn hsource hopen => ?_⟩
  · obtain ⟨⟨entity, condition⟩, hfinish, rfl⟩ := Outcome.map_eq_ok.1 h
    obtain ⟨asking, sorts, hcomplete, rfl, hkeys⟩ := exists_complete_of_finish hfluent hfinish
    exact ⟨entity, asking, sorts, hcomplete, by rw [hkeys]⟩
  · rintro ⟨entity, asking, sorts, hcomplete, rfl⟩
    obtain ⟨hfinish, hkeys⟩ := hcomplete.finish fields hfluent
    rw [hfinish, hkeys]
    rfl
  · subst hcs
    obtain ⟨m, hm, hkept⟩ := error_calls_of_misuse fields hfluent hbefore hc
    refine ⟨m, hm, ?_⟩
    rw [finish, hkept]
    rfl
  · rw [hsource] at hentity
    rw [finish, herror.2 hturn, hentity]
    rfl
  · obtain ⟨entity, hlast⟩ := Option.ne_none_iff_exists'.1 (mt List.getLast?_eq_none_iff.1 hsource)
    obtain ⟨asking, hasking, -⟩ | ⟨-, hdangling⟩ :=
      (stands_of_error hfluent (herror.2 hturn)).condition.finish
    · exact absurd hasking (hopen asking)
    · rw [finish, herror.2 hturn, hentity, hlast]
      simp only [hdangling]
      rfl

/-- A chain of calls succeeds exactly when an entity is named, the calls of the condition are
comparisons as they are asked for, and each direction stands right behind its sort field; else it
fails with the first call out of turn, whatever is called behind that. -/
theorem chain_judged (fields : List String) (cs : List Call) (hfluent : ∀ c ∈ cs, c.Fluent) :
    Judged .select cs ((ofFields fields).calls cs).select (fun entity condition sorts =>
      ⟨entity, fields, condition, sorts, (cs.filterMap Call.limit?).getLast?.getD 0,
        (cs.filterMap Call.skip?).getLast?.getD 0⟩) ∧
    Judged .delete cs ((ofFields fields).calls cs).delete
      (fun entity condition _ => ⟨entity, fields, condition⟩) := by
  obtain ⟨hfields, -, hlimit, hskip⟩ := calls_set fields cs
  refine ⟨judged_of_finish fields hfluent ?_, judged_of_finish fields hfluent ?_⟩
  · simp only [select, sorts_flush, hfields, hlimit, hskip]
  · simp only [delete, hfields]

def interleaved : List Call :=
  [.skip 3, .first "age", .not, .source "God", .not, .orderBy "age",
    .test (.plain .greater (.int 10)), .direction .descending, .link .or "name",
    .test (.isIn [.string "Ada"]), .orderBy "name", .limit 5, .source "Hero"]

def interrupted : List Call :=
  [.source "God", .first "a", .test (.plain .equal .null), .first "b", .direction .ascending]

theorem interleaved_judged :
    ((ofFields ["name"]).calls interleaved).select = .ok ⟨"Hero", ["name"],
      some (.group .or [.compare .greater ⟨"age", .int 10⟩,
        .compare .isIn ⟨"name", .list [.string "Ada"]⟩]),
      [⟨"age", .descending⟩, ⟨"name", .ascending⟩], 5, 3⟩ ∧
    ((ofFields []).calls interrupted).select = .error (.misuse .secondWhere) ∧
    ((ofFields []).calls [.first "a"]).delete = .error (.missingEntity .delete) ∧
    ((ofFields []).calls [.first "a", .source "God"]).delete =
      .error (.misuse .danglingField) := by
  have hopen : ∀ asking : Option Asking, [Call.first "a"] ≠ asking.elim [] Asking.calls := by
    intro asking h
    cases asking with
    | none => cases h
    | some a => simp [Asking.calls, Asked.calls] at h
  have hbegun : InTurn [.first "a"] :=
    ⟨⟨⟨⟨"a", 0, .isIn []⟩, []⟩, [.test (.isIn [])], rfl⟩, [], List.nil_prefix⟩
  refine ⟨?_, ?_, ?_, ?_⟩
  · have hfluent : ∀ c ∈ interleaved, c.Fluent := by
      simp [interleaved, Call.Fluent, Test.Fluent]
    exact ((chain_judged ["name"] interleaved hfluent).1.accepted _).2
      ⟨"Hero", some ⟨⟨"age", 2, .plain .greater (.int 10)⟩,
        [(.or, ⟨"name", 0, .isIn [.string "Ada"]⟩)]⟩,
        [⟨"age", some .descending⟩, ⟨"name", none⟩], ⟨rfl, rfl, rfl⟩, rfl⟩
  · have hfluent : ∀ c ∈ interrupted, c.Fluent := by
      simp [interrupted, Call.Fluent, Test.Fluent]
    obtain ⟨m, hm, herror⟩ := (chain_judged [] interrupted hfluent).1.misused
      [.source "God", .first "a", .test (.plain .equal .null)] (.first "b")
      [.direction .ascending] rfl ⟨⟨⟨⟨"a", 0, .plain .equal .null⟩, []⟩, List.prefix_refl _⟩, [],
        List.nil_prefix⟩ fun h => by cases h.misuse?
    cases hm
    exact herror
  · exact (chain_judged [] [.first "a"] (by simp [Call.Fluent])).2.sourceless hbegun rfl
  · exact (chain_judged [] [.first "a", .source "God"] (by simp [Call.Fluent])).2.dangling hbegun
      (by simp [Call.source?]) hopen

end Building

end Draft

end RecordQuery
