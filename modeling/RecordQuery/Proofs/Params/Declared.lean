import Mathlib
import RecordQuery.Engine
import RecordQuery.Proofs.Condition.Resolve
import RecordQuery.Proofs.Params.Logged

namespace RecordQuery

namespace Params

theorem eraseDups_concat (ns : List String) (n : String) :
    (ns ++ [n]).eraseDups = if n ∈ ns then ns.eraseDups else ns.eraseDups ++ [n] := by
  rw [List.eraseDups_append]
  split
  · next h => simp [List.removeAll, h]
  · next h => simp [List.removeAll, h, List.eraseDups_cons]

theorem names_declare {p : Params} {ns : List String} (h : p.names = ns.eraseDups) (n : String) :
    (p.declare n).names = (ns ++ [n]).eraseDups := by
  have hmem : p.contains n = true ↔ n ∈ ns := by simp [contains, h]
  rw [eraseDups_concat]
  unfold declare
  split
  · next hn => rw [if_pos (hmem.1 hn), h]
  · next hn => rw [if_neg (mt hmem.2 hn), ← h]

theorem bound_declare (p : Params) (n : String) : (p.declare n).bound = p.bound := by
  unfold declare
  split <;> rfl

theorem names_declareAll {p : Params} {l : List String} (h : p.names = l.eraseDups)
    (ns : List String) : (p.declareAll ns).names = (l ++ ns).eraseDups := by
  induction ns generalizing p l with
  | nil => simpa [declareAll] using h
  | cons n ns ih => simpa [declareAll] using ih (names_declare h n)

theorem bound_declareAll (p : Params) (ns : List String) : (p.declareAll ns).bound = p.bound := by
  induction ns generalizing p with
  | nil => rfl
  | cons n ns ih => exact (ih (p.declare n)).trans (bound_declare p n)

theorem declareAll_empty (ns : List String) : empty.declareAll ns = ⟨ns.eraseDups, []⟩ := by
  have hnames : (empty.declareAll ns).names = ns.eraseDups := names_declareAll (l := []) rfl ns
  calc empty.declareAll ns
    _ = ⟨(empty.declareAll ns).names, (empty.declareAll ns).bound⟩ := rfl
    _ = ⟨ns.eraseDups, []⟩ := by rw [hnames, bound_declareAll, empty]

end Params

namespace Condition

theorem childParams_append (cs ds : List Condition) :
    childParams (cs ++ ds) = childParams cs ++ childParams ds := by
  simp only [childParams_eq_flatMap, List.flatMap_append]

theorem params_negate (c : Condition) : c.negate.params = c.params := by
  cases c <;> rfl

theorem params_join (left : Condition) (k : Connective) (right : Condition) :
    (left.join k right).params = left.params ++ right.params := by
  unfold join
  split
  · next k' children =>
      split
      · simp [params, childParams_append, childParams]
      · simp [params, childParams]
  · simp [params, childParams]

end Condition

namespace Clause

variable {field : String → String}

mutual

theorem params_resolve : ∀ {c : Clause} {tree : Condition}, c.resolve field = .ok tree →
    tree.params = c.params
  | .compare name k v, tree, h => by
      obtain ⟨-, rfl⟩ := Condition.ofColumn_eq_ok.1 h
      rfl
  | .not inner, tree, h => by
      obtain ⟨t, ht, rfl⟩ := Outcome.map_eq_ok.1 h
      rw [Condition.params_negate, params_resolve ht, params]
  | .chain first rest, tree, h => by
      obtain ⟨left, hleft, h⟩ := Outcome.bind_eq_ok.1 h
      rw [params, ← params_resolve hleft]
      exact params_resolveRest h

theorem params_resolveRest : ∀ {rest : List (Connective × Clause)} {left tree : Condition},
    resolveRest field left rest = .ok tree → tree.params = left.params ++ restParams rest
  | [], left, tree, h => by
      cases h
      simp [restParams]
  | (k, next) :: rest, left, tree, h => by
      obtain ⟨right, hright, h⟩ := Outcome.bind_eq_ok.1 h
      rw [params_resolveRest h, Condition.params_join, params_resolve hright, restParams,
        List.append_assoc]

end

theorem params_resolveSome {c : Option Clause} {tree : Option Condition}
    (h : resolveSome field c = .ok tree) :
    (tree.map Condition.params).getD [] = (c.map params).getD [] := by
  cases c with
  | none =>
      cases h
      rfl
  | some c =>
      obtain ⟨t, ht, rfl⟩ := Outcome.map_eq_ok.1 h
      exact params_resolve ht

end Clause

theorem Record.params_rename (naming : Naming) (r : Record) :
    (r.rename naming).params = r.params := by
  unfold Record.params Record.rename
  induction r.columns with
  | nil => rfl
  | cons c cs ih => simpa [Value.columnParams] using ih

theorem Written.params_resolve {naming : Naming} {w : Written} {s : Command}
    (h : w.resolve naming = .ok s) : s.params = w.params := by
  cases w with
  | select q | delete q =>
      obtain ⟨tree, htree, h⟩ := Outcome.bind_eq_ok.1 h
      cases h
      exact Clause.params_resolveSome htree
  | insert r ttl =>
      cases h
      exact r.params_rename naming
  | update r =>
      cases h
      exact r.params_rename naming

namespace Query

theorem params_of_ofWritten {naming : Naming} {w : Written} {q : Query}
    (h : ofWritten naming w = .ok q) : q.params = ⟨q.command.params.eraseDups, []⟩ := by
  obtain ⟨s, hs, rfl⟩ := Outcome.map_eq_ok.1 h
  rw [Params.declareAll_empty, Written.params_resolve hs]

theorem params_of_parse {limits : Limits} {naming : Naming} {text : String} {q : Query}
    (h : parse limits naming text = .ok q) : q.params = ⟨q.command.params.eraseDups, []⟩ := by
  obtain ⟨w, -, h⟩ := Outcome.bind_eq_ok.1 h
  exact params_of_ofWritten h

theorem eraseDups_eq_nil {ns : List String} : ns.eraseDups = [] ↔ ns = [] := by
  cases ns <;> simp [List.eraseDups_cons]

theorem plain_eq {q : Query} (h : q.params = ⟨q.command.params.eraseDups, []⟩) :
    q.plain = if q.command.params = [] then .ok q.command
      else .error (.parametersRequirePrepare q.command.params.eraseDups) := by
  unfold plain isParameterized
  rw [h]
  by_cases hnil : q.command.params = [] <;> simp [hnil, eraseDups_eq_nil]

end Query

namespace Engine

variable {σ : Type} {e : Engine} {text : String}

theorem params_of_parse {q : Query} (h : (e.parse text).1 = .ok q) :
    q.params = ⟨q.command.params.eraseDups, []⟩ := by
  obtain ⟨w, -, h⟩ := Outcome.bind_eq_ok.1 h
  exact Query.params_of_ofWritten h

theorem parse_ofLimits (limits : Limits) (naming : Naming) (text : String) :
    ((ofLimits limits naming).parse text).1 = Query.parse limits naming text := by
  have hread : ((Cache.ofLimits limits).written text).1 = Written.ofText limits text := by
    simp only [Cache.written, Cache.ofLimits, List.lookup_nil]
    cases Written.ofText limits text <;> rfl
  calc ((ofLimits limits naming).parse text).1
    _ = ((Cache.ofLimits limits).written text).1.bind (Query.ofWritten naming) := rfl
    _ = Query.parse limits naming text := by rw [hread]; rfl

theorem query_of_parse_error (b : Backend σ) (state : σ) {err : QueryError}
    (h : (e.parse text).1 = .error err) :
    e.query b text state = (.error err, (e.parse text).2, state) := by
  simp [query, statement, h, Except.bind]

theorem query_of_parse_ok (b : Backend σ) (state : σ) {q : Query}
    (h : (e.parse text).1 = .ok q) :
    e.query b text state = if q.command.params = []
      then ((b.execute q.command state).1, (e.parse text).2, (b.execute q.command state).2)
      else (.error (.parametersRequirePrepare q.command.params.eraseDups), (e.parse text).2,
        state) := by
  have hplain := Query.plain_eq (params_of_parse h)
  split
  · next hnil => simp [query, statement, h, Except.bind, hplain, hnil]
  · next hnil => simp [query, statement, h, Except.bind, hplain, hnil]

end Engine

/-- A query declares exactly the parameters of its statement and binds none. An engine, whatever it
has read before, hands a statement to its backend once if it is without parameters; else it names
all of them and hands over nothing. -/
theorem Engine.declares_and_asks {limits : Limits} {naming : Naming} {text : String} :
    (∀ q, Query.parse limits naming text = .ok q →
      q.params.names = q.command.params.eraseDups ∧ q.params.bound = []) ∧
    ∀ (e : Engine) {σ : Type} (b : Backend σ) (state : σ) (log : List Command),
      (∀ err, (e.parse text).1 = .error err →
        e.query b.logged text (state, log) = (.error err, (e.parse text).2, state, log)) ∧
      ∀ q, (e.parse text).1 = .ok q →
        q.params.names = q.command.params.eraseDups ∧ q.params.bound = [] ∧
        (q.command.params = [] → e.query b.logged text (state, log) =
          ((b.execute q.command state).1, (e.parse text).2, (b.execute q.command state).2,
            log ++ [q.command])) ∧
        (q.command.params ≠ [] → e.query b.logged text (state, log) =
          (.error (.parametersRequirePrepare q.command.params.eraseDups), (e.parse text).2, state,
            log)) := by
  refine ⟨fun q h => ?_, fun e σ b state log => ⟨fun err h => ?_, fun q h => ?_⟩⟩
  · rw [Query.params_of_parse h]
    exact ⟨rfl, rfl⟩
  · exact query_of_parse_error b.logged (state, log) h
  · have hquery := query_of_parse_ok b.logged (state, log) h
    refine ⟨?_, ?_, fun hnil => ?_, fun hne => ?_⟩
    · rw [params_of_parse h]
    · rw [params_of_parse h]
    · rw [hquery, if_pos hnil, Backend.execute_logged]
    · rw [hquery, if_neg hne]

def twiceNamed : Query :=
  ⟨.delete ⟨"t", [], some (.group .and [.compare .equal ⟨"a", .param "x"⟩,
    .compare .isIn ⟨"b", .list [.param "y", .param "x"]⟩])⟩, ⟨["x", "y"], []⟩⟩

theorem parse_twiceNamed :
    Query.parse {} .identity "delete from t where a = @x and b in [@y, @x]" = .ok twiceNamed := by
  cbv

theorem Engine.asks_recorder :
    twiceNamed.params.names = twiceNamed.command.params.eraseDups ∧
    ((Engine.ofLimits {} .identity).query Recorder.backend.logged
      "delete from t where a = @x and b in [@y, @x]" (⟨[], none, []⟩, [])).1 =
        .error (.parametersRequirePrepare ["x", "y"]) ∧
    ((Engine.ofLimits {} .identity).query Recorder.backend.logged "delete from t"
      (⟨[], none, []⟩, [])).2.2.2 = [.delete ⟨"t", [], none⟩] ∧
    ((Engine.ofLimits {} .identity).query Recorder.backend.logged "drop t"
      (⟨[], none, []⟩, [])).2.2.2 = [] := by
  refine ⟨?_, ?_, ?_, ?_⟩
  · exact ((@declares_and_asks {} .identity _).1 _ parse_twiceNamed).1
  · have hparse := parse_twiceNamed
    rw [← parse_ofLimits] at hparse
    rw [(((@declares_and_asks {} .identity _).2 _ _ _ _).2 _ hparse).2.2.2 (by decide)]
    rfl
  · have hparse : Query.parse {} .identity "delete from t" =
        .ok ⟨.delete ⟨"t", [], none⟩, ⟨[], []⟩⟩ := by
      cbv
    rw [← parse_ofLimits] at hparse
    rw [(((@declares_and_asks {} .identity _).2 _ _ _ _).2 _ hparse).2.2.1 rfl]
    rfl
  · have hparse : Query.parse {} .identity "drop t" = .error (.unknownCommand "drop t") := by
      cbv
    rw [← parse_ofLimits] at hparse
    rw [((@declares_and_asks {} .identity _).2 _ _ _ _).1 _ hparse]

end RecordQuery
