import RecordQuery.Proofs.Condition.Meaning
import RecordQuery.Proofs.Condition.Normal
import RecordQuery.Proofs.Store.Deleting

namespace RecordQuery

namespace Connective

variable {k : Connective} {left right : Outcome Bool} {hit : Bool} {e : QueryError}

theorem combine_eq_error : k.combine left right = .error e ↔
    left = .error e ∨ left = .ok k.unit ∧ right = .error e := by
  cases left with
  | error e' => simp [combine, bind, Except.bind]
  | ok x => cases k <;> cases x <;> simp [combine, unit, Outcome.ok_bind]

theorem combine_eq_ok : k.combine left right = .ok hit ↔
    left = .ok k.unit ∧ right = .ok hit ∨ left = .ok (!k.unit) ∧ hit = !k.unit := by
  cases left with
  | error e' => simp [combine, bind, Except.bind]
  | ok x => cases k <;> cases x <;> simp [combine, unit, Outcome.ok_bind, eq_comm]

end Connective

theorem Comparison.holds_asOperand (k : Comparison) (stored v : Value) :
    k.holds stored (Condition.asOperand k v) = k.holds stored v := by
  cases k with
  | isIn => cases v <;> simp [Condition.asOperand, holds]
  | equal | greater | greaterEqual | less | lessEqual | like | between => rfl

namespace Condition

variable {r : Record} {c : Condition} {name : String} {hit : Bool} {e : QueryError}
  {σ : String → Value}

def unboundOperand (name : String) : QueryError :=
  .unsupported s!"memory backend cannot evaluate unbound parameter @{name}"

theorem comparisonHolds_eq_error {k : Comparison} {column : Column} :
    comparisonHolds r k column = .error e ↔
      ∃ name, column.value = .param name ∧ e = unboundOperand name := by
  unfold comparisonHolds
  split
  · next name hvalue => simp [hvalue, unboundOperand, eq_comm]
  · next hvalue =>
      constructor
      · intro h
        split at h <;> cases h
      · rintro ⟨name, hname, -⟩
        exact absurd hname (hvalue name)

theorem holds_group_eq_error {k : Connective} {cs : List Condition} :
    (group k cs).holds r = .error e ↔ ∃ before c after, cs = before ++ c :: after ∧
      (∀ b ∈ before, b.holds r = .ok k.unit) ∧ c.holds r = .error e := by
  apply Outcome.fails_iff_first fun cs => (group k cs).holds r = .error e
  · rw [holds_group_nil]
    exact fun h => by cases h
  · intro c cs
    rw [holds_group_cons, Connective.combine_eq_error]

/-- That a condition asks a record for a parameter: the evaluation comes to a comparison with it. -/
inductive Asks (r : Record) : Condition → String → Prop
  | operand {k : Comparison} {column : Column} {name : String} (h : column.value = .param name) :
      Asks r (.compare k column) name
  | negated {inner : Condition} {name : String} (h : Asks r inner name) : Asks r inner.not name
  | reached {k : Connective} {before : List Condition} {c : Condition} {name : String}
      (hbefore : ∀ b ∈ before, b.holds r = .ok k.unit) (h : Asks r c name)
      (after : List Condition) : Asks r (.group k (before ++ c :: after)) name

theorem Asks.holds_eq_error (h : c.Asks r name) : c.holds r = .error (unboundOperand name) := by
  induction h with
  | operand h => exact comparisonHolds_eq_error.2 ⟨_, h, rfl⟩
  | negated h ih => exact Outcome.map_eq_error.2 ih
  | reached hbefore h after ih =>
      exact holds_group_eq_error.2 ⟨_, _, after, rfl, hbefore, ih⟩

theorem Asks.mem_params (h : c.Asks r name) : name ∈ c.params := by
  induction h with
  | operand h => simp [params, h, Value.params]
  | negated h ih => exact ih
  | reached hbefore h after ih =>
      rw [params, childParams_eq_flatMap]
      exact List.mem_flatMap.2 ⟨_, List.mem_append_right _ List.mem_cons_self, ih⟩

theorem holds_eq_error_iff :
    c.holds r = .error e ↔ ∃ name, c.Asks r name ∧ e = unboundOperand name := by
  constructor
  · intro h
    induction c using inductParts with
    | compare k column =>
        obtain ⟨name, hvalue, he⟩ := comparisonHolds_eq_error.1 h
        exact ⟨name, .operand hvalue, he⟩
    | group k children ih =>
        obtain ⟨before, c, after, rfl, hbefore, hc⟩ := holds_group_eq_error.1 h
        obtain ⟨name, hasks, he⟩ := ih c (List.mem_append_right _ List.mem_cons_self) hc
        exact ⟨name, .reached hbefore hasks after, he⟩
    | not inner ih =>
        obtain ⟨name, hasks, he⟩ := ih (Outcome.map_eq_error.1 h)
        exact ⟨name, .negated hasks, he⟩
  · rintro ⟨name, hasks, rfl⟩
    exact hasks.holds_eq_error

theorem told_iff_not_asks : (∃ hit, c.holds r = .ok hit) ↔ ∀ name, ¬c.Asks r name := by
  constructor
  · rintro ⟨hit, hhit⟩ name hasks
    rw [hasks.holds_eq_error] at hhit
    cases hhit
  · intro h
    cases hholds : c.holds r with
    | ok hit => exact ⟨hit, rfl⟩
    | error e =>
        obtain ⟨name, hasks, -⟩ := holds_eq_error_iff.1 hholds
        exact absurd hasks (h name)

/-- A parameter in the value of a column is the whole value. -/
def Whole (_ : Comparison) (column : Column) : Prop :=
  ∀ name ∈ column.value.params, column.value = .param name

theorem comparisonHolds_of_closed {column : Column} (k : Comparison)
    (h : column.value.params = []) : comparisonHolds r k column =
      .ok ((r.lookup column.name).any fun stored => k.holds stored column.value) := by
  unfold comparisonHolds
  split
  · next hvalue =>
      rw [hvalue] at h
      cases h
  · cases r.lookup column.name <;> rfl

theorem holds_subst (hc : c.Each Whole) (h : c.holds r = .ok hit) :
    (c.subst σ).holds r = .ok hit := by
  induction c using inductParts generalizing hit with
  | compare k column =>
      have hclosed : column.value.params = [] := by
        refine List.eq_nil_iff_forall_not_mem.2 fun name hname => ?_
        have hasks : (compare k column).Asks r name := .operand (hc name hname)
        exact told_iff_not_asks.1 ⟨hit, h⟩ name hasks
      have hoperand := @comparisonHolds_of_closed r ⟨column.name, asOperand k column.value⟩ k
        ((params_asOperand k column.value).trans hclosed)
      rw [holds, comparisonHolds_of_closed k hclosed] at h
      rw [subst, holds, Value.subst_of_params_eq_nil hclosed, hoperand, ← h]
      simp only [k.holds_asOperand]
  | group k children ih =>
      rw [Each, allEach_iff] at hc
      rw [subst]
      induction children generalizing hit with
      | nil => exact h
      | cons c cs ihs =>
          rw [List.forall_mem_cons] at ih hc
          rw [holds_group_cons, Connective.combine_eq_ok] at h
          rw [substChildren, holds_group_cons, Connective.combine_eq_ok]
          rcases h with ⟨hfirst, hrest⟩ | ⟨hfirst, hdecided⟩
          · exact .inl ⟨ih.1 hc.1 hfirst, ihs ih.2 hc.2 hrest⟩
          · exact .inr ⟨ih.1 hc.1 hfirst, hdecided⟩
  | not inner ih =>
      obtain ⟨x, hx, rfl⟩ := Outcome.map_eq_ok.1 h
      exact Outcome.map_eq_ok.2 ⟨x, ih hc hx, rfl⟩

end Condition

namespace Store

open Condition (Told holdsIfAny unboundOperand Whole)

variable {s : Store} {cmd : Command} {c : Condition} {rs rows : List Record} {e : QueryError}
  {σ : String → Value}

theorem matching_eq_error : matching (some c) rs = .error e ↔
    ∃ before r after name, rs = before ++ r :: after ∧ (∀ b ∈ before, ∀ n, ¬c.Asks b n) ∧
      c.Asks r name ∧ e = unboundOperand name := by
  rw [matching_eq_mapM, Outcome.map_eq_error, Outcome.mapM_eq_error]
  simp only [holdsIfAny, Condition.told_iff_not_asks, Condition.holds_eq_error_iff]
  constructor
  · rintro ⟨before, r, after, hrs, hbefore, name, hasks, he⟩
    exact ⟨before, r, after, name, hrs, hbefore, hasks, he⟩
  · rintro ⟨before, r, after, name, hrs, hbefore, hasks, he⟩
    exact ⟨before, r, after, hrs, hbefore, name, hasks, he⟩

theorem execute_eq_error (hc : cmd.condition? = some c) :
    (backend.execute cmd s).1 = .error e ↔
      matching (some c) (s.records cmd.entity) = .error e := by
  cases cmd with
  | select q =>
      have hcondition : q.condition = some c := hc
      rw [← hcondition]
      exact select_eq_error
  | delete d =>
      have hcondition : d.condition = some c := hc
      rw [← hcondition, execute_delete_eq_error, delete_eq_error]
      exact select_eq_error
  | insert r ttl => cases hc
  | update r => cases hc

theorem told_of_execute (hc : cmd.condition? = some c)
    (h : (backend.execute cmd s).1 = .ok rows) : Told (some c) (s.records cmd.entity) := by
  cases hmatching : matching (some c) (s.records cmd.entity) with
  | ok found => exact told_of_matching hmatching
  | error e =>
      rw [(execute_eq_error hc).2 hmatching] at h
      cases h

theorem execute_subst (hc : cmd.condition? = some c) (hwhole : c.Each Whole)
    (h : (backend.execute cmd s).1 = .ok rows) :
    backend.execute (cmd.subst σ) s = backend.execute cmd s := by
  have hsame : ∀ r ∈ s.records cmd.entity,
      holdsIfAny (some (c.subst σ)) r = holdsIfAny (some c) r := by
    intro r hr
    obtain ⟨hit, hhit⟩ := told_of_execute hc h r hr
    rw [hhit]
    exact Condition.holds_subst hwhole hhit
  cases cmd with
  | select q =>
      obtain ⟨entity, fields, condition, sorts, limit, skip⟩ := q
      cases hc
      change (select s _, s) = (select s _, s)
      rw [Option.map_some, ← select_congr hsame]
  | delete d =>
      obtain ⟨entity, fields, condition⟩ := d
      cases hc
      change mapOutcome _ (s.delete _) = mapOutcome _ (s.delete _)
      rw [Option.map_some, ← delete_congr hsame]
  | insert r ttl => cases hc
  | update r => cases hc

/-- A statement with a condition fails exactly where the condition asks a record for a parameter,
with the one that the first such record is asked for, and then changes nothing. One that succeeds
has read no parameter that stands alone: it would have done the same with any value in its place. -/
theorem fails_iff_asks (s : Store) (cmd : Command) (c : Condition)
    (hc : cmd.condition? = some c) :
    (∀ e, (backend.execute cmd s).1 = .error e ↔
      ∃ before r after name, s.records cmd.entity = before ++ r :: after ∧
        (∀ b ∈ before, ∀ n, ¬c.Asks b n) ∧ c.Asks r name ∧
        e = .unsupported s!"memory backend cannot evaluate unbound parameter @{name}") ∧
    (∀ e, (backend.execute cmd s).1 = .error e →
      (backend.execute cmd s).2 = s ∧ ∃ name ∈ c.params,
        e = .unsupported s!"memory backend cannot evaluate unbound parameter @{name}") ∧
    (c.Each Whole → ∀ rows, (backend.execute cmd s).1 = .ok rows →
      ∀ σ, backend.execute (cmd.subst σ) s = backend.execute cmd s) := by
  have hfails := fun e => (execute_eq_error (s := s) (e := e) hc).trans matching_eq_error
  refine ⟨hfails, fun e he => ⟨(answered_execute cmd s).snd_of_error he, ?_⟩, fun hwhole rows h σ => ?_⟩
  · obtain ⟨_, r, _, name, -, -, hasks, he'⟩ := (hfails e).1 he
    exact ⟨name, hasks.mem_params, he'⟩
  · exact execute_subst hc hwhole h

def diana : Record := ⟨"God", [⟨"age", .int 30⟩, ⟨"name", .string "Diana"⟩]⟩

def zeus : Record := ⟨"God", [⟨"age", .int 50⟩, ⟨"name", .string "Zeus"⟩]⟩

def couple : Store := ⟨[⟨"God", [⟨diana, none⟩, ⟨zeus, none⟩]⟩]⟩

def removing (k : Connective) (age : Int64) : Command :=
  .delete ⟨"God", [], some (.group k [.compare .greater ⟨"age", .int age⟩,
    .not (.compare .equal ⟨"name", .param "who"⟩)])⟩

theorem couple_asked :
    (backend.execute (removing .and 40) couple).1 =
      .error (.unsupported "memory backend cannot evaluate unbound parameter @who") ∧
    (backend.execute (removing .and 40) couple).2 = couple ∧
    backend.execute ((removing .or 20).subst fun _ => .null) couple =
      backend.execute (removing .or 20) couple := by
  have hasked := fails_iff_asks couple (removing .and 40) _ rfl
  have hpassed := fails_iff_asks couple (removing .or 20) _ rfl
  have hfails : (backend.execute (removing .and 40) couple).1 =
      .error (.unsupported "memory backend cannot evaluate unbound parameter @who") := by
    -- Diana is spared by her age, so that Zeus is the first to be asked for
    refine (hasked.1 _).2 ⟨[diana], zeus, [], "who", rfl, ?_, ?_, rfl⟩
    · exact List.forall_mem_singleton.2 (Condition.told_iff_not_asks.1 ⟨false, rfl⟩)
    · have hname : (Condition.not (.compare .equal ⟨"name", .param "who"⟩)).Asks zeus "who" :=
        .negated (.operand rfl)
      refine @Condition.Asks.reached zeus .and [_] _ _ ?_ hname []
      exact List.forall_mem_singleton.2 rfl
  refine ⟨hfails, (hasked.2.1 _ hfails).1, hpassed.2.2 ?_ [] rfl _⟩
  refine ⟨?_, ?_, trivial⟩
  · exact List.forall_mem_nil _
  · exact List.forall_mem_singleton.2 rfl

def sparing : Command :=
  .delete ⟨"God", [], some (.not (.compare .between ⟨"age", .list [.param "low", .int 60]⟩))⟩

/-- A bound without a value compares with nothing, and the negation of that takes every record. So
does a group that is decided before its parameter is read. -/
theorem couple_lost :
    sparing.params = ["low"] ∧
    (backend.execute sparing couple).1 = .ok [] ∧
    (backend.execute sparing couple).2.records "God" = [] ∧
    (removing .or 20).params = ["who"] ∧
    (backend.execute (removing .or 20) couple).1 = .ok [] ∧
    (backend.execute (removing .or 20) couple).2.records "God" = [] :=
  ⟨rfl, rfl, rfl, rfl, rfl, rfl⟩

end Store

end RecordQuery
