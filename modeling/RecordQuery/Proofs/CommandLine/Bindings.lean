import RecordQuery.CommandLine.Report
import RecordQuery.Proofs.Outcome.Collected
import RecordQuery.Proofs.Params.Literal
import RecordQuery.Proofs.Params.Prepared

namespace RecordQuery

namespace Prepared

variable {limits : Limits} {naming : Naming} {text name : String} {q : Query}
  {binds : List (String × Value)}

theorem mem_params_filled (h : Query.parse limits naming text = .ok q)
    (hmissing : missing q binds = []) :
    name ∈ (filled q binds).params ↔
      ∃ declared ∈ q.params.names, ∃ v, lastBound binds declared = some v ∧ name ∈ v.params := by
  rw [filled, Command.params_subst, List.mem_flatMap]
  have hdeclared : ∀ n, n ∈ q.params.names ↔ n ∈ q.command.params := by
    intro n
    rw [Query.params_of_parse h]
    exact List.mem_eraseDups
  constructor
  · rintro ⟨n, hn, hname⟩
    obtain ⟨v, hv⟩ := isSome_lastBound hmissing ((hdeclared n).2 hn)
    rw [hv] at hname
    exact ⟨n, (hdeclared n).2 hn, v, hv, hname⟩
  · rintro ⟨n, hn, v, hv, hname⟩
    refine ⟨n, (hdeclared n).1 hn, ?_⟩
    rw [hv]
    exact hname

theorem filled_of_no_params (h : Query.parse limits naming text = .ok q)
    (hnone : q.command.params = []) : filled q binds = q.command :=
  Command.subst_of_params_eq_nil (admitted_of_parse h) hnone

end Prepared

namespace CommandLine

open Prepared (missing filled lastBound)

variable {limits : Limits} {naming : Naming} {text raw : String} {q : Query} {raws : List String}
  {binds : List (String × Value)} {b : String × Value}

/-- The value is no parameter, and each parameter in it is written in the text. -/
def Mentioned (text : String) (v : Value) : Prop :=
  v.isParam = false ∧ ∀ name ∈ v.params, Written.Mentions text name

theorem mentioned_of_literal {v : Value} (h : Written.literal text = .ok v) : Mentioned text v :=
  ⟨Written.isParam_of_literal h, fun _ hname => Written.mentions_of_literal h hname⟩

theorem mentioned_bindingValue (text : String) : Mentioned text (bindingValue text) := by
  unfold bindingValue
  cases h : Written.literal text with
  | ok v => exact mentioned_of_literal h
  | error e => exact ⟨rfl, by simp [Value.params]⟩

theorem mentioned_of_binding (h : binding raw = .ok b) :
    ∃ before value, splitAtEquals raw = (before, some value) ∧ Mentioned value b.2 := by
  unfold binding at h
  split at h
  · cases h
  · next before value hsplit =>
      dsimp only at h
      split at h
      · cases h
      · cases h
        exact ⟨before, value, hsplit, mentioned_bindingValue value⟩

def reported (r : Outcome (List Record) × Store) : Reported (List Record × Store) :=
  (ofOutcome r.1).map fun rows => (rows, r.2)

theorem carryOut_eq (h : Query.parse limits naming text = .ok q)
    (hbinds : raws.mapM binding = .ok binds) (store : Store) :
    carryOut q raws store =
      if missing q binds = [] then reported (Store.backend.execute (filled q binds) store)
      else .error (.query (.unboundParameters (missing q binds))) := by
  have hcarry : carryOut q raws store = reported (if q.isParameterized || !binds.isEmpty then
      ((Prepared.ofQuery q).bindAll binds).execute Store.backend store
      else Store.backend.execute q.command store) := by
    unfold carryOut
    rw [hbinds]
    rfl
  rw [hcarry, Prepared.execute_bindAll h]
  split
  · split <;> rfl
  · next hplain =>
      simp only [Bool.or_eq_true, not_or, Query.isParameterized, Bool.not_eq_true',
        Bool.not_eq_false, List.isEmpty_iff] at hplain
      have hmissing : missing q binds = [] := by rw [missing, hplain.1, List.filter_nil]
      have hnone : q.command.params = [] := by
        rw [← Query.eraseDups_eq_nil, ← hplain.1, Query.params_of_parse h]
      rw [if_pos hmissing, Prepared.filled_of_no_params h hnone]

/-- A literal is no parameter, but may have parameters within it that its text mentions. So a query
is carried out as its statement with the values bound last, once there is one for each parameter,
and the parameters of that statement are those within these values. -/
theorem literal_and_bound_params (h : Query.parse limits naming text = .ok q)
    (hbinds : raws.mapM binding = .ok binds) :
    (∀ s v, Written.literal s = .ok v → Mentioned s v) ∧
    (∀ b ∈ binds, ∃ raw ∈ raws, ∃ before value,
      splitAtEquals raw = (before, some value) ∧ Mentioned value b.2) ∧
    (∀ store, carryOut q raws store =
      if missing q binds = [] then reported (Store.backend.execute (filled q binds) store)
      else .error (.query (.unboundParameters (missing q binds)))) ∧
    (missing q binds = [] → ∀ name, name ∈ (filled q binds).params ↔
      ∃ declared ∈ q.params.names, ∃ v, lastBound binds declared = some v ∧ name ∈ v.params) := by
  refine ⟨fun s v => mentioned_of_literal, fun b hb => ?_, carryOut_eq h hbinds,
    fun hmissing name => Prepared.mem_params_filled h hmissing⟩
  obtain ⟨raw, hraw, hb⟩ := Outcome.mem_of_mapM hbinds b hb
  exact ⟨raw, hraw, mentioned_of_binding hb⟩

def aged : Query :=
  ⟨.select ⟨"God", [], some (.compare .isIn ⟨"age", .param "ages"⟩), [], 0, 0⟩, ⟨["ages"], []⟩⟩

theorem parse_aged :
    Query.parse {} .identity "select * from God where age in @ages" = .ok aged := by
  cbv

def ranged : List (String × Value) := [("ages", .list [.int 30, .param "low"])]

theorem binding_ranged : ["ages=[30, @low]"].mapM binding = .ok ranged := by
  cbv

theorem ranged_keeps_param :
    "low" ∈ (filled aged ranged).params ∧ "ages" ∉ (filled aged ranged).params := by
  have hparams := (literal_and_bound_params parse_aged binding_ranged).2.2.2 (by decide)
  rw [hparams, hparams]
  decide

theorem bracketed_param_accepted :
    Written.literal "[30, @low]" = .ok (.list [.int 30, .param "low"]) ∧
    (Value.list [.int 30, .param "low"]).params = ["low"] ∧
    ∀ store, carryOut aged ["ages=[30, @low]"] store =
      reported (Store.backend.execute (.select ⟨"God", [],
        some (.compare .isIn ⟨"age", .list [.int 30, .param "low"]⟩), [], 0, 0⟩) store) := by
  refine ⟨by cbv, rfl, fun store => ?_⟩
  have hmissing : missing aged ranged = [] := by decide
  rw [carryOut_eq parse_aged binding_ranged, if_pos hmissing]
  rfl

end CommandLine

end RecordQuery
