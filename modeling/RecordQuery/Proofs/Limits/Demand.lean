import RecordQuery.Query

/-!
How limits decide a reading. A reader meets its limits one demand after the other: the first demand
above its limit ends the reading, and where all are met the outcome does not depend on the limits.
-/

namespace RecordQuery

/-- A number that a limit has to reach. -/
structure Demand where
  limit : Limited
  count : Nat
  deriving DecidableEq, Repr

namespace Demand

variable {α β : Type}

def Met (limits : Limits) (d : Demand) : Prop := d.count ≤ limits.of d.limit

instance (limits : Limits) (d : Demand) : Decidable (d.Met limits) :=
  inferInstanceAs (Decidable (d.count ≤ limits.of d.limit))

def refusal (limits : Limits) (d : Demand) : QueryError :=
  .limitExceeded d.limit (limits.of d.limit) d.count

/-- The outcome, unless a demand before it is not met. -/
def outcome (limits : Limits) (o : Outcome α) : List Demand → Outcome α
  | [] => o
  | d :: ds => if d.Met limits then outcome limits o ds else .error (d.refusal limits)

variable {limits : Limits} {o : Outcome α} {ds : List Demand}

theorem outcome_of_met (h : ∀ d ∈ ds, d.Met limits) : outcome limits o ds = o := by
  induction ds with
  | nil => rfl
  | cons d ds ih =>
      rw [List.forall_mem_cons] at h
      rw [outcome, if_pos h.1, ih h.2]

theorem outcome_of_not_met (h : ¬ ∀ d ∈ ds, d.Met limits) :
    ∃ d ∈ ds, ¬ d.Met limits ∧ outcome limits o ds = .error (d.refusal limits) := by
  induction ds with
  | nil => exact absurd (by simp) h
  | cons d ds ih =>
      rw [outcome]
      by_cases hd : d.Met limits
      · rw [List.forall_mem_cons] at h
        obtain ⟨e, he, hnot, hout⟩ := ih fun hds => h ⟨hd, hds⟩
        rw [if_pos hd]
        exact ⟨e, List.mem_cons_of_mem d he, hnot, hout⟩
      · rw [if_neg hd]
        exact ⟨d, List.mem_cons_self, hd, rfl⟩

theorem outcome_append (ds ds' : List Demand) :
    outcome limits o (ds ++ ds') = outcome limits (outcome limits o ds') ds := by
  induction ds with
  | nil => rfl
  | cons d ds ih => rw [List.cons_append, outcome, outcome, ih]

theorem outcome_bind (f : α → Outcome β) (ds : List Demand) :
    outcome limits o ds >>= f = outcome limits (o >>= f) ds := by
  induction ds with
  | nil => rfl
  | cons d ds ih =>
      rw [outcome, outcome]
      split
      · exact ih
      · rfl

/-- The limits decide the outcome by demands alone. -/
def Decides (f : Limits → Outcome α) : Prop :=
  ∃ (ds : List Demand) (o : Outcome α), ∀ limits, f limits = outcome limits o ds

namespace Decides

variable {f g : Limits → Outcome α}

theorem const (o : Outcome α) : Decides fun _ => o := ⟨[], o, fun _ => rfl⟩

theorem congr (h : ∀ limits, f limits = g limits) (hg : Decides g) : Decides f := by
  obtain ⟨ds, o, hg⟩ := hg
  exact ⟨ds, o, fun limits => (h limits).trans (hg limits)⟩

theorem bind {g : Limits → α → Outcome β} (hf : Decides f)
    (hg : ∀ a, Decides fun limits => g limits a) :
    Decides fun limits => f limits >>= g limits := by
  obtain ⟨ds, o, hf⟩ := hf
  cases o with
  | error e =>
      refine ⟨ds, .error e, fun limits => ?_⟩
      simp only [hf]
      exact outcome_bind (g limits) ds
  | ok a =>
      obtain ⟨ds', o', hg⟩ := hg a
      have hnext : ∀ limits, g limits a = outcome limits o' ds' := hg
      refine ⟨ds ++ ds', o', fun limits => ?_⟩
      calc f limits >>= g limits
        _ = outcome limits (.ok a) ds >>= g limits := by rw [hf]
        _ = outcome limits (g limits a) ds := outcome_bind (g limits) ds
        _ = outcome limits o' (ds ++ ds') := by rw [hnext, outcome_append]

theorem map (k : α → β) (hf : Decides f) : Decides fun limits => (f limits).map k :=
  congr (fun limits => by cases f limits <;> rfl) (hf.bind fun a => const (.ok (k a)))

theorem ite (c : Prop) [Decidable c] (hf : Decides f) (hg : Decides g) :
    Decides fun limits => if c then f limits else g limits := by
  by_cases h : c
  · simpa only [if_pos h] using hf
  · simpa only [if_neg h] using hg

theorem demand (limit : Limited) (count : Nat) (a : α) :
    Decides fun limits =>
      if limits.of limit < count then
        .error (.limitExceeded limit (limits.of limit) count)
      else .ok a := by
  refine ⟨[⟨limit, count⟩], .ok a, fun limits => ?_⟩
  by_cases h : limits.of limit < count
  · have hmet : ¬ Met limits ⟨limit, count⟩ := Nat.not_le.2 h
    simp only [outcome, if_pos h, if_neg hmet]
    rfl
  · have hmet : Met limits ⟨limit, count⟩ := Nat.not_lt.1 h
    simp only [outcome, if_neg h, if_pos hmet]

end Decides

end Demand

namespace Written

open Demand (Decides)

/-- Whether a mark stands first, in the form in which the equations of the readers ask for it. -/
theorem mark_or (m : Mark) (ts : List Token) :
    (∃ source rest, ts = ⟨.mark m, source⟩ :: rest) ∨
      ∀ source rest, ts = ⟨.mark m, source⟩ :: rest → False := by
  by_cases h : ∃ source rest, ts = ⟨.mark m, source⟩ :: rest
  · exact .inl h
  · exact .inr fun source rest heq => h ⟨source, rest, heq⟩

theorem decides_deeper (limit : Limited) (depth : Nat) :
    Decides fun limits => deeper limits limit depth :=
  .demand limit (depth + 1) (depth + 1)

theorem decides_checkCount (count : Nat) : Decides fun limits => checkCount limits count :=
  .demand .inList count ()

section Literals

mutual

theorem decides_readValue (depth : Nat) (ts : List Token) :
    Decides fun limits => readValue limits depth ts := by
  refine .congr (fun limits => readValue.eq_def limits depth ts) ?_
  match ts with
  | [] | ⟨.string _, _⟩ :: _ | ⟨.int _, _⟩ :: _ | ⟨.decimal _, _⟩ :: _ | ⟨.param _, _⟩ :: _ =>
      exact .const _
  | ⟨.word word, source⟩ :: rest =>
      cases hword : wordValue? word with
      | some v =>
          simp only [hword]
          exact .const _
      | none =>
          simp only [hword]
          match rest with
          | [] => exact .const _
          | ⟨.mark m, source'⟩ :: rest =>
              cases m with
              | openParen =>
                  refine .ite _ ?_ (.const _)
                  refine (decides_deeper .literalDepth depth).bind fun depth => ?_
                  exact (decides_readConversion depth rest).bind fun r => .const _
              | _ => exact .const _
          | ⟨.string _, _⟩ :: _ | ⟨.int _, _⟩ :: _ | ⟨.decimal _, _⟩ :: _ | ⟨.param _, _⟩ :: _
          | ⟨.word _, _⟩ :: _ => exact .const _
  | ⟨.mark m, source⟩ :: rest =>
      cases m with
      | openBrace =>
          refine (decides_deeper .literalDepth depth).bind fun depth => ?_
          exact (decides_readBraces depth rest).bind fun r => .const _
      | openBracket =>
          refine (decides_deeper .literalDepth depth).bind fun depth => ?_
          exact (decides_readBrackets depth rest).bind fun r => .const _
      | _ => exact .const _
termination_by (ts.length, 0)

theorem decides_readBraces (depth : Nat) (ts : List Token) :
    Decides fun limits => readBraces limits depth ts := by
  rcases mark_or .closeBrace ts with ⟨source, rest, rfl⟩ | hopen
  · exact .congr (fun limits => readBraces.eq_1 limits depth source rest) (.const _)
  · refine .congr (fun limits => readBraces.eq_2 limits depth ts hopen) ?_
    exact .ite _ ((decides_readEntries depth ts).map _) ((decides_readItems depth _ ts).map _)
termination_by (ts.length, 2)

theorem decides_readBrackets (depth : Nat) (ts : List Token) :
    Decides fun limits => readBrackets limits depth ts := by
  rcases mark_or .closeBracket ts with ⟨source, rest, rfl⟩ | hopen
  · exact .congr (fun limits => readBrackets.eq_1 limits depth source rest) (.const _)
  · refine .congr (fun limits => readBrackets.eq_2 limits depth ts hopen) ?_
    exact (decides_readItems depth _ ts).map _
termination_by (ts.length, 2)

theorem decides_readItems (depth : Nat) (close : Mark) (ts : List Token) :
    Decides fun limits => readItems limits depth close ts := by
  refine .congr (fun limits => readItems.eq_def limits depth close ts) ?_
  refine (decides_readValue depth ts).bind fun ⟨v, rest, hlt⟩ => ?_
  cases hcomma : comma? rest with
  | some r =>
      have : r.rest.length < ts.length := Nat.lt_trans r.shorter hlt
      simp only [hcomma]
      exact (decides_readItems depth close r.rest).bind fun vs => .const _
  | none =>
      simp only [hcomma]
      exact .const _
termination_by (ts.length, 1)

theorem decides_readEntries (depth : Nat) (ts : List Token) :
    Decides fun limits => readEntries limits depth ts := by
  refine .congr (fun limits => readEntries.eq_def limits depth ts) ?_
  refine (Decides.const _).bind fun ⟨key, rest₁, hlt₁⟩ => ?_
  refine (Decides.const _).bind fun ⟨_, rest₂, hlt₂⟩ => ?_
  have : rest₂.length < ts.length := Nat.lt_trans hlt₂ hlt₁
  refine (decides_readValue depth rest₂).bind fun ⟨v, rest₃, hlt₃⟩ => ?_
  cases hcomma : comma? rest₃ with
  | some r =>
      have : r.rest.length < ts.length := Nat.lt_trans r.shorter (Nat.lt_trans hlt₃ this)
      simp only [hcomma]
      exact (decides_readEntries depth r.rest).bind fun cs => .const _
  | none =>
      simp only [hcomma]
      exact .const _
termination_by (ts.length, 1)

theorem decides_readConversion (depth : Nat) (ts : List Token) :
    Decides fun limits => readConversion limits depth ts := by
  refine .congr (fun limits => readConversion.eq_def limits depth ts) ?_
  exact (decides_readValue depth ts).bind fun r => .const _
termination_by (ts.length, 1)

end

end Literals

section Clauses

theorem decides_readListed (count : Nat) (ts : List Token) :
    Decides fun limits => readListed limits count ts := by
  refine .congr (fun limits => readListed.eq_def limits count ts) ?_
  refine (decides_readValue 0 ts).bind fun ⟨v, rest, hlt⟩ => ?_
  refine (decides_checkCount (count + 1)).bind fun _ => ?_
  cases comma? rest with
  | some r =>
      have : r.rest.length < ts.length := Nat.lt_trans r.shorter hlt
      exact (decides_readListed (count + 1) r.rest).bind fun vs => .const _
  | none =>
      exact .const _
termination_by ts.length

theorem decides_readMembers (ts : List Token) : Decides fun limits => readMembers limits ts := by
  rcases mark_or .openParen ts with ⟨source, rest, rfl⟩ | hopen
  · exact (decides_readListed 0 rest).map _
  · refine .congr (fun limits => readMembers.eq_2 limits ts hopen) ?_
    refine (decides_readValue 0 ts).bind fun ⟨v, rest, hlt⟩ => ?_
    cases v with
    | list items => exact (decides_checkCount items.length).bind fun _ => .const _
    | _ => exact .const _

theorem decides_readBounds (ts : List Token) : Decides fun limits => readBounds limits ts := by
  refine (decides_readValue 0 ts).bind fun ⟨low, rest, _⟩ => ?_
  refine (Decides.const (expectKeyword "and" rest)).bind fun ⟨_, rest', _⟩ => ?_
  exact (decides_readValue 0 rest').bind fun high => .const _

theorem decides_readOperand (c : Comparison) (ts : List Token) :
    Decides fun limits => readOperand limits c ts := by
  cases c with
  | isIn => exact decides_readMembers ts
  | between => exact decides_readBounds ts
  | equal | greater | greaterEqual | less | lessEqual | like => exact decides_readValue 0 ts

theorem decides_readCompare (ts : List Token) : Decides fun limits => readCompare limits ts := by
  refine (Decides.const (expectWord "field name" ts)).bind fun ⟨field, rest, _⟩ => ?_
  refine (Decides.const (readComparison (skipKeyword "not" rest).rest)).bind fun ⟨c, rest', _⟩ => ?_
  exact (decides_readOperand c rest').bind fun operand => .const _

mutual

theorem decides_readChain (depth : Nat) (ts : List Token) :
    Decides fun limits => readChain limits depth ts := by
  refine .congr (fun limits => readChain.eq_def limits depth ts) ?_
  refine (decides_readTerm depth ts).bind fun ⟨first, rest, hlt⟩ => ?_
  cases hnext : connective? rest with
  | some r =>
      have : r.rest.length < ts.length := Nat.lt_trans r.shorter hlt
      simp only [hnext]
      exact (decides_readChain depth r.rest).bind fun chain => .const _
  | none =>
      simp only [hnext]
      exact .const _
termination_by (ts.length, 1)

theorem decides_readTerm (depth : Nat) (ts : List Token) :
    Decides fun limits => readTerm limits depth ts := by
  refine .congr (fun limits => readTerm.eq_def limits depth ts) ?_
  match ts with
  | [] | ⟨.string _, _⟩ :: _ | ⟨.int _, _⟩ :: _ | ⟨.decimal _, _⟩ :: _ | ⟨.param _, _⟩ :: _ =>
      exact decides_readCompare _
  | ⟨.word word, source⟩ :: rest =>
      refine .ite _ ?_ (decides_readCompare _)
      refine (decides_deeper .conditionDepth depth).bind fun depth => ?_
      exact (decides_readTerm depth rest).bind fun inner => .const _
  | ⟨.mark m, source⟩ :: rest =>
      cases m with
      | openParen =>
          refine (decides_deeper .conditionDepth depth).bind fun depth => ?_
          exact (decides_readChain depth rest).bind fun chain => .const _
      | _ => exact decides_readCompare _
termination_by (ts.length, 0)

end

theorem decides_readWhere (ts : List Token) : Decides fun limits => readWhere limits ts := by
  unfold readWhere
  match skipKeyword "where" ts with
  | ⟨false, _, _⟩ => exact .const _
  | ⟨true, rest, _⟩ => exact ((decides_readChain 0 rest).map _).map _

end Clauses

section Statements

theorem decides_readSelect (ts : List Token) : Decides fun limits => readSelect limits ts := by
  refine (Decides.const (expectKeyword "select" ts)).bind fun ⟨_, rest₁, _⟩ => ?_
  refine (Decides.const (readProjection rest₁)).bind fun ⟨fields, rest₂, _⟩ => ?_
  refine (Decides.const (readSource .select rest₂)).bind fun ⟨entity, rest₃, _⟩ => ?_
  exact (decides_readWhere rest₃).bind fun p => .const _

theorem decides_readDelete (ts : List Token) : Decides fun limits => readDelete limits ts := by
  refine (Decides.const (expectKeyword "delete" ts)).bind fun ⟨_, rest₁, _⟩ => ?_
  refine (Decides.const (readRemoved rest₁)).bind fun ⟨fields, rest₂, _⟩ => ?_
  refine (Decides.const (readSource .delete rest₂)).bind fun ⟨entity, rest₃, _⟩ => ?_
  exact (decides_readWhere rest₃).bind fun p => .const _

theorem decides_readAssignments (ts : List Token) :
    Decides fun limits => readAssignments limits ts := by
  refine .congr (fun limits => readAssignments.eq_def limits ts) ?_
  refine (Decides.const (expectWord "field name" ts)).bind fun ⟨name, rest₁, hlt₁⟩ => ?_
  refine (Decides.const (expectMark .equal rest₁)).bind fun ⟨_, rest₂, hlt₂⟩ => ?_
  refine (decides_readValue 0 rest₂).bind fun ⟨v, rest₃, hlt₃⟩ => ?_
  cases hcomma : comma? rest₃ with
  | some r =>
      have : r.rest.length < ts.length :=
        Nat.lt_trans r.shorter (Nat.lt_trans hlt₃ (Nat.lt_trans hlt₂ hlt₁))
      simp only [hcomma]
      exact (decides_readAssignments r.rest).bind fun columns => .const _
  | none =>
      simp only [hcomma]
      exact .const _
termination_by ts.length

theorem decides_readPayload (ts : List Token) : Decides fun limits => readPayload limits ts :=
  (decides_readBraces 0 ts).bind fun _ => .const _

theorem decides_readBody (ts : List Token) : Decides fun limits => readBody limits ts := by
  match ts with
  | [] | ⟨.string _, _⟩ :: _ | ⟨.int _, _⟩ :: _ | ⟨.decimal _, _⟩ :: _ | ⟨.param _, _⟩ :: _
  | ⟨.word _, _⟩ :: _ => exact .const _
  | ⟨.mark m, source⟩ :: rest =>
      cases m with
      | openBrace => exact (decides_readPayload rest).map _
      | openParen =>
          rcases mark_or .openBrace rest with ⟨source', rest', rfl⟩ | hopen
          · exact (decides_readPayload rest').bind fun columns => .const _
          · refine .congr (fun limits => readBody.eq_3 limits source rest hopen) ?_
            exact (decides_readAssignments rest).map _
      | _ => exact .const _

theorem decides_readInsert (ts : List Token) : Decides fun limits => readInsert limits ts := by
  refine (Decides.const (expectKeyword "insert" ts)).bind fun ⟨_, rest₁, _⟩ => ?_
  refine (Decides.const (readEntity .insert rest₁)).bind fun ⟨entity, rest₂, _⟩ => ?_
  exact (decides_readBody rest₂).bind fun columns => .const _

theorem decides_readUpdate (ts : List Token) : Decides fun limits => readUpdate limits ts := by
  refine (Decides.const (expectKeyword "update" ts)).bind fun ⟨_, rest₁, _⟩ => ?_
  refine (Decides.const (readEntity .update rest₁)).bind fun ⟨entity, rest₂, _⟩ => ?_
  exact (decides_readBody rest₂).bind fun columns => .const _

theorem decides_readStatement (verb : Verb) (ts : List Token) :
    Decides fun limits => readStatement limits verb ts := by
  cases verb with
  | select => exact decides_readSelect ts
  | delete => exact decides_readDelete ts
  | insert => exact decides_readInsert ts
  | update => exact decides_readUpdate ts

theorem decides_ofText (text : String) : Decides fun limits => ofText limits text := by
  unfold ofText
  cases Verb.ofKeyword? (String.ofList (text.toList.take verbLength)) with
  | none => exact .const _
  | some verb =>
      refine (Decides.const (Token.ofChars text.toList)).bind fun ts => ?_
      exact decides_readStatement verb ts

end Statements

end Written

theorem Query.decides_parse (naming : Naming) (text : String) :
    Demand.Decides fun limits => parse limits naming text :=
  (Written.decides_ofText text).bind fun w => .const (ofWritten naming w)

end RecordQuery
