import RecordQuery.Prepared
import RecordQuery.Proofs.Params.Declared
import RecordQuery.Proofs.Params.Subst

namespace RecordQuery

namespace Params

theorem contains_bind (p : Params) (name : String) (v : Value) (other : String) :
    (p.bind name v).contains other = p.contains other := by
  rw [contains, names_bind, contains]

theorem bind_of_not_contains {p : Params} {name : String} (v : Value)
    (h : p.contains name = false) : p.bind name v = p := by
  simp [bind, h]

end Params

namespace Prepared

variable {p : Prepared} {binds : List (String × Value)} {σ : Type}

def lastBound (binds : List (String × Value)) (name : String) : Option Value :=
  binds.reverse.lookup name

theorem lastBound_cons (b : String × Value) (binds : List (String × Value)) (name : String) :
    lastBound (b :: binds) name =
      (lastBound binds name).or (if name = b.1 then some b.2 else none) := by
  obtain ⟨key, v⟩ := b
  rw [lastBound, List.reverse_cons, List.lookup_append, lastBound]
  have hlookup : [(key, v)].lookup name = if name = key then some v else none := by
    by_cases h : name = key
    · simp [h]
    · have hbeq : (name == key) = false := by simp [h]
      simp [List.lookup_cons, h, hbeq]
  rw [hlookup]

theorem lastBound_filter (binds : List (String × Value)) (name : String) :
    lastBound (binds.filter fun b => b.1 = name) name = lastBound binds name := by
  induction binds with
  | nil => rfl
  | cons b binds ih =>
      rw [List.filter_cons, lastBound_cons]
      by_cases h : b.1 = name
      · simp [h, lastBound_cons, ih]
      · simp [h, Ne.symm h, ih]

theorem lastBound_congr {binds' : List (String × Value)}
    (h : ∀ name, binds'.filter (fun b => b.1 = name) = binds.filter fun b => b.1 = name) :
    lastBound binds' = lastBound binds := by
  funext name
  rw [← lastBound_filter binds', h name, lastBound_filter]

theorem isNone_lastBound {name : String} :
    (lastBound binds name).isNone = true ↔ name ∉ binds.map Prod.fst := by
  induction binds with
  | nil => simp [lastBound]
  | cons b binds ih =>
      rw [lastBound_cons, Option.isNone_or, Bool.and_eq_true, ih]
      by_cases h : name = b.1 <;> simp [h]

theorem mem_of_lastBound {name : String} {v : Value} (h : lastBound binds name = some v) :
    (name, v) ∈ binds := by
  induction binds with
  | nil => simp [lastBound] at h
  | cons b binds ih =>
      rw [lastBound_cons, Option.or_eq_some_iff] at h
      rcases h with h | ⟨-, h⟩
      · exact List.mem_cons_of_mem b (ih h)
      · split at h
        · next hname =>
            cases h
            rw [hname]
            exact List.mem_cons_self
        · cases h

theorem command_bindAll (p : Prepared) (binds : List (String × Value)) :
    (p.bindAll binds).command = p.command := by
  induction binds generalizing p with
  | nil => rfl
  | cons b binds ih => exact ih (p.bind b.1 b.2)

theorem names_bindAll (p : Prepared) (binds : List (String × Value)) :
    (p.bindAll binds).params.names = p.params.names := by
  induction binds generalizing p with
  | nil => rfl
  | cons b binds ih => exact (ih (p.bind b.1 b.2)).trans (p.params.names_bind b.1 b.2)

theorem value?_bindAll {name : String} (h : p.params.contains name = true) :
    (p.bindAll binds).params.value? name =
      (lastBound binds name).or (p.params.value? name) := by
  induction binds generalizing p with
  | nil => rfl
  | cons b binds ih =>
      have hstep := ih (p := p.bind b.1 b.2) ((p.params.contains_bind b.1 b.2 name).trans h)
      rw [lastBound_cons, Option.or_assoc]
      refine hstep.trans (congrArg _ ?_)
      by_cases hname : name = b.1
      · subst hname
        simp [bind, Params.value?_bind_self b.2 h]
      · simp [bind, Params.value?_bind_of_ne p.params b.2 (Ne.symm hname), hname]

theorem bindAll_filter (p : Prepared) (binds : List (String × Value)) :
    p.bindAll (binds.filter fun b => p.params.contains b.1) = p.bindAll binds := by
  induction binds generalizing p with
  | nil => rfl
  | cons b binds ih =>
      have hstep := ih (p.bind b.1 b.2)
      simp only [bind, Params.contains_bind] at hstep
      cases hb : p.params.contains b.1 with
      | true => simpa [List.filter_cons, hb, bindAll, bind] using hstep
      | false =>
          rw [Params.bind_of_not_contains b.2 hb] at hstep
          simpa [List.filter_cons, hb, bindAll, bind, Params.bind_of_not_contains b.2 hb]
            using hstep

section Parsed

variable {limits : Limits} {naming : Naming} {text : String} {q : Query}

def missing (q : Query) (binds : List (String × Value)) : List String :=
  q.params.names.filter fun name => name ∉ binds.map Prod.fst

def filled (q : Query) (binds : List (String × Value)) : Command :=
  q.command.subst fun name => (lastBound binds name).getD (.param name)

theorem value?_ofQuery (h : q.params.bound = []) {name : String} (hname : name ∈ q.params.names) :
    ((ofQuery q).bindAll binds).params.value? name = lastBound binds name := by
  have hcontains : (ofQuery q).params.contains name = true := by
    simpa [ofQuery, Params.contains] using hname
  rw [value?_bindAll hcontains, ofQuery, Params.value?, h, Named.find?, Option.or_none]

theorem unbound_bindAll (h : q.params.bound = []) :
    ((ofQuery q).bindAll binds).params.unbound = missing q binds := by
  rw [Params.unbound, names_bindAll, missing]
  refine List.filter_congr fun name hname => ?_
  rw [value?_ofQuery h hname, Bool.eq_iff_iff, isNone_lastBound, decide_eq_true_iff]

theorem isSome_lastBound (h : missing q binds = []) {name : String}
    (hname : name ∈ q.params.names) : ∃ v, lastBound binds name = some v := by
  cases hlast : lastBound binds name with
  | some v => exact ⟨v, rfl⟩
  | none =>
      have hnone : (lastBound binds name).isNone = true := by rw [hlast]; rfl
      have := List.filter_eq_nil_iff.1 h name hname
      exact absurd (decide_eq_true (isNone_lastBound.1 hnone)) this

theorem admitted_of_parse (h : Query.parse limits naming text = .ok q) : q.command.Admitted := by
  obtain ⟨w, -, h⟩ := Outcome.bind_eq_ok.1 h
  obtain ⟨s, hs, rfl⟩ := Outcome.map_eq_ok.1 h
  exact Command.admitted_of_resolve hs

theorem bound_bindAll (h : Query.parse limits naming text = .ok q) :
    ((ofQuery q).bindAll binds).bound =
      if missing q binds = [] then .ok (filled q binds)
      else .error (.unboundParameters (missing q binds)) := by
  have hparams := Query.params_of_parse h
  have hbound : q.params.bound = [] := by rw [hparams]
  rw [bound, unbound_bindAll hbound, command_bindAll]
  split
  · next hmissing =>
      refine Command.bind_eq_subst (admitted_of_parse h) fun name hname => ?_
      have hdeclared : name ∈ q.params.names := by
        rw [hparams]
        exact List.mem_eraseDups.2 hname
      obtain ⟨v, hv⟩ := isSome_lastBound hmissing hdeclared
      rw [value?_ofQuery hbound hdeclared, hv]
      rfl
  · rfl

theorem params_filled (h : Query.parse limits naming text = .ok q) (hmissing : missing q binds = [])
    (hplain : ∀ b ∈ binds, b.2.params = []) : (filled q binds).params = [] := by
  rw [filled, Command.params_subst, List.flatMap_eq_nil_iff]
  intro name hname
  have hdeclared : name ∈ q.params.names := by
    rw [Query.params_of_parse h]
    exact List.mem_eraseDups.2 hname
  obtain ⟨v, hv⟩ := isSome_lastBound hmissing hdeclared
  rw [hv]
  exact hplain _ (mem_of_lastBound hv)

theorem missing_congr {binds' : List (String × Value)} (h : lastBound binds' = lastBound binds) :
    missing q binds' = missing q binds := by
  refine List.filter_congr fun name _ => ?_
  rw [Bool.eq_iff_iff, decide_eq_true_iff, decide_eq_true_iff, ← isNone_lastBound, h,
    isNone_lastBound]

theorem bound_congr {binds' : List (String × Value)} (h : Query.parse limits naming text = .ok q)
    (hlast : lastBound binds' = lastBound binds) :
    ((ofQuery q).bindAll binds').bound = ((ofQuery q).bindAll binds).bound := by
  rw [bound_bindAll h, bound_bindAll h, missing_congr hlast, filled, hlast, filled]

theorem execute_bindAll (h : Query.parse limits naming text = .ok q) (b : Backend σ) (state : σ) :
    ((ofQuery q).bindAll binds).execute b state =
      if missing q binds = [] then b.execute (filled q binds) state
      else (.error (.unboundParameters (missing q binds)), state) := by
  rw [execute, bound_bindAll h]
  by_cases hmissing : missing q binds = [] <;> simp [hmissing]

/-- After any run of binds a prepared query either names exactly the declared parameters that were
never bound, or is its statement with each parameter replaced by the value bound to it last. The
backend is asked once in the second case and not at all in the first. Binds of other names, and the
order of binds of different names, do not count. -/
theorem binding_fills_statement (h : Query.parse limits naming text = .ok q)
    (binds : List (String × Value)) :
    q.params.names = q.command.params.eraseDups ∧
    (missing q binds ≠ [] → ((ofQuery q).bindAll binds).bound =
      .error (.unboundParameters (missing q binds))) ∧
    (missing q binds = [] → ((ofQuery q).bindAll binds).bound = .ok (filled q binds) ∧
      ((∀ b ∈ binds, b.2.params = []) → (filled q binds).params = [])) ∧
    (∀ {σ : Type} (b : Backend σ) (state : σ) (log : List Command),
      ((ofQuery q).bindAll binds).execute b.logged (state, log) =
        if missing q binds = [] then
          ((b.execute (filled q binds) state).1, (b.execute (filled q binds) state).2,
            log ++ [filled q binds])
        else (.error (.unboundParameters (missing q binds)), state, log)) ∧
    (ofQuery q).bindAll (binds.filter fun b => q.params.contains b.1) =
      (ofQuery q).bindAll binds ∧
    ∀ binds' : List (String × Value),
      (∀ name, binds'.filter (fun b => b.1 = name) = binds.filter fun b => b.1 = name) →
        ((ofQuery q).bindAll binds').bound = ((ofQuery q).bindAll binds).bound ∧
        ∀ {σ : Type} (b : Backend σ) (state : σ), ((ofQuery q).bindAll binds').execute b state =
          ((ofQuery q).bindAll binds).execute b state := by
  refine ⟨?_, fun hmissing => ?_, fun hmissing => ⟨?_, params_filled h hmissing⟩,
    fun b state log => ?_, bindAll_filter (ofQuery q) binds, fun binds' hsame => ⟨?_, ?_⟩⟩
  · rw [Query.params_of_parse h]
  · rw [bound_bindAll h, if_neg hmissing]
  · rw [bound_bindAll h, if_pos hmissing]
  · rw [execute_bindAll h, Backend.execute_logged]
  · exact bound_congr h (lastBound_congr hsame)
  · intro σ b state
    rw [execute, bound_congr h (lastBound_congr hsame), ← execute]

theorem twiceNamed_filled :
    ((ofQuery twiceNamed).bindAll [("x", .int 1), ("z", .null), ("y", .string "b"),
      ("x", .int 2)]).bound = .ok (.delete ⟨"t", [], some (.group .and [
        .compare .equal ⟨"a", .int 2⟩, .compare .isIn ⟨"b", .list [.string "b", .int 2]⟩])⟩) ∧
    ((ofQuery twiceNamed).bindAll [("y", .null)]).bound = .error (.unboundParameters ["x"]) := by
  have hfilled := binding_fills_statement parse_twiceNamed
    [("x", .int 1), ("z", .null), ("y", .string "b"), ("x", .int 2)]
  have hmissing := binding_fills_statement parse_twiceNamed [("y", .null)]
  exact ⟨(hfilled.2.2.1 (by decide)).1, hmissing.2.1 (by decide)⟩

end Parsed

end Prepared

end RecordQuery
