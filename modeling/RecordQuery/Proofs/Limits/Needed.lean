import Mathlib
import RecordQuery.Proofs.Condition.Writing
import RecordQuery.Proofs.Limits.Demand
import RecordQuery.Proofs.Statement.Resolve

namespace RecordQuery

namespace Demand

variable {α : Type} {limits limits' : Limits} {ds : List Demand} {f : Limits → Outcome α}

def greatest (l : Limited) : List Demand → Nat
  | [] => 0
  | d :: ds => if d.limit = l then max d.count (greatest l ds) else greatest l ds

theorem greatest_le {l : Limited} {n : Nat} :
    greatest l ds ≤ n ↔ ∀ d ∈ ds, d.limit = l → d.count ≤ n := by
  induction ds with
  | nil => simp [greatest]
  | cons d ds ih =>
      rw [greatest, List.forall_mem_cons, ← ih]
      by_cases h : d.limit = l
      · rw [if_pos h, Nat.max_le]
        simp [h]
      · rw [if_neg h]
        simp [h]

def needed (ds : List Demand) : Limits where
  cacheCapacity := 0
  conditionDepth := greatest .conditionDepth ds
  inList := greatest .inList ds
  literalDepth := greatest .literalDepth ds

theorem of_needed (l : Limited) (ds : List Demand) : (needed ds).of l = greatest l ds := by
  cases l <;> rfl

theorem cover_needed_iff : limits.Cover (needed ds) ↔ ∀ d ∈ ds, d.Met limits := by
  simp only [Limits.Cover, of_needed, greatest_le, Met]
  constructor
  · intro h d hd
    exact h d.limit d hd rfl
  · rintro h l d hd rfl
    exact h d hd

theorem Met.mono {d : Demand} (hd : d.Met limits) (h : limits'.Cover limits) : d.Met limits' :=
  Nat.le_trans hd (h d.limit)

namespace Decides

theorem eq_of_cover (hf : Decides f) (h : limits'.Cover limits)
    (hread : ∀ l m n, f limits ≠ .error (.limitExceeded l m n)) : f limits' = f limits := by
  obtain ⟨ds, o, hf⟩ := hf
  rw [hf] at hread
  have hmet : ∀ d ∈ ds, d.Met limits := by
    refine Classical.byContradiction fun hnot => ?_
    obtain ⟨d, -, -, hrefused⟩ := @outcome_of_not_met _ _ o _ hnot
    exact hread _ _ _ hrefused
  rw [hf, hf, outcome_of_met hmet, outcome_of_met fun d hd => (hmet d hd).mono h]

theorem exists_needed (hf : Decides f) {a : α} (ha : f limits = .ok a) :
    ∃ needed : Limits, ∀ limits',
      (limits'.Cover needed → f limits' = .ok a) ∧
      (¬ limits'.Cover needed → ∃ l found, limits'.of l < found ∧
        f limits' = .error (.limitExceeded l (limits'.of l) found)) := by
  obtain ⟨ds, o, hf⟩ := hf
  have ho : o = .ok a := by
    by_cases hmet : ∀ d ∈ ds, d.Met limits
    · rw [hf, outcome_of_met hmet] at ha
      exact ha
    · obtain ⟨d, -, -, hrefused⟩ := @outcome_of_not_met _ _ o _ hmet
      rw [hf, hrefused] at ha
      cases ha
  refine ⟨needed ds, fun limits' => ⟨fun h => ?_, fun h => ?_⟩⟩
  · rw [hf, outcome_of_met (cover_needed_iff.1 h), ho]
  · obtain ⟨d, -, hnot, hrefused⟩ := @outcome_of_not_met _ _ o _ (mt cover_needed_iff.2 h)
    exact ⟨d.limit, d.count, Nat.not_le.1 hnot, (hf limits').trans hrefused⟩

end Decides

end Demand

namespace Written

variable {limits : Limits} {ts : List Token} {w : Written} {s : Command}

open Condition (operandWidth)

theorem Operand.width_le {k : Comparison} {ls : List Lexeme} {v : Value}
    (h : Operand limits k ls v) : operandWidth k v ≤ limits.inList := by
  cases h with
  | listed _ hcount | members _ hcount => exact hcount
  | param | bounds => exact Nat.zero_le _
  | value hin => cases k <;> first | exact absurd rfl hin | exact Nat.zero_le _

theorem width_le_of_readClause {r : Read Token Clause ts} (h : readClause limits ts = .ok r)
    (field : String → String) (tree : Condition) (htree : r.value.resolve field = .ok tree) :
    tree.Each fun k column => operandWidth k column.value ≤ limits.inList := by
  obtain ⟨-, ls, first, more, hchain, hvalue, -⟩ := gives_readClause_iff.1 ⟨r.shorter, h⟩
  have heach := hchain.each (L := fun _ => True) (P := Clause.AtLeaf field
    (Condition.Each fun k column => operandWidth k column.value ≤ limits.inList))
    (fun _ _ hv _ _ => hv.width_le) (by simp)
  have hclause := Clause.each_chainOf.2 heach
  rw [← hvalue] at hclause
  exact Clause.resolve_closed Clause.closed_each hclause htree

end Written

namespace Command

/-- No `in` list of the statement is longer than the number. -/
def Listed (n : Nat) (s : Command) : Prop :=
  ∀ c ∈ s.condition?, c.Each fun k column => Condition.operandWidth k column.value ≤ n

end Command

namespace Written

theorem listed_of_ofText {text : String} {naming : Naming} (h : ofText limits text = .ok w)
    (hs : w.resolve naming = .ok s) : s.Listed limits.inList := by
  have hclause := clause_of_ofText (P := fun c => ∀ field tree, c.resolve field = .ok tree →
    tree.Each fun k column => Condition.operandWidth k column.value ≤ limits.inList)
    width_le_of_readClause h
  intro tree htree
  obtain ⟨field, c, hc, hresolve⟩ := exists_clause_of_resolve hs tree htree
  exact hclause c hc field tree hresolve

end Written

namespace Query

theorem listed_of_parse {limits : Limits} {naming : Naming} {text : String} {q : Query}
    (h : parse limits naming text = .ok q) : q.command.Listed limits.inList := by
  obtain ⟨w, hw, h⟩ := Outcome.bind_eq_ok.1 h
  obtain ⟨s, hs, rfl⟩ := Outcome.map_eq_ok.1 h
  exact Written.listed_of_ofText hw hs

/-- Limits refuse texts and do nothing else. What is read under some limits, and what fails for
another reason, comes out the same under larger ones. A text that is read under some limits needs
so much of each of the three, whatever its names stand for: it is read under exactly the limits that
reach this, and refused for a number above its limit under all others. The `in` lists of what is
read are no longer than the limit for them. -/
theorem limits_refuse_only (text : String) :
    (∀ (limits limits' : Limits) (naming : Naming), limits'.Cover limits →
      (∀ q, parse limits naming text = .ok q → parse limits' naming text = .ok q) ∧
      ∀ e, (∀ l m n, e ≠ .limitExceeded l m n) → parse limits naming text = .error e →
        parse limits' naming text = .error e) ∧
    ((∃ limits naming q, parse limits naming text = .ok q) →
      ∃ needed : Limits, ∀ (limits : Limits) (naming : Naming),
        ((∃ q, parse limits naming text = .ok q) ↔ limits.Cover needed) ∧
        (¬ limits.Cover needed → ∃ l found, limits.of l < found ∧
          parse limits naming text = .error (.limitExceeded l (limits.of l) found))) ∧
    ∀ (limits : Limits) (naming : Naming) (q : Query), parse limits naming text = .ok q →
      q.command.Listed limits.inList := by
  refine ⟨fun limits limits' naming h => ⟨fun q hq => ?_, fun e he herror => ?_⟩, ?_, ?_⟩
  · rw [(decides_parse naming text).eq_of_cover h (by simp [hq]), hq]
  · rw [(decides_parse naming text).eq_of_cover h (by simpa [herror] using he), herror]
  · rintro ⟨limits, naming, q, hq⟩
    obtain ⟨w, hw, -⟩ := Outcome.bind_eq_ok.1 hq
    obtain ⟨needed, hneeded⟩ := (Written.decides_ofText text).exists_needed hw
    refine ⟨needed, fun limits' naming' => ?_⟩
    obtain ⟨hread, hrefused⟩ := hneeded limits'
    have herror : ¬ limits'.Cover needed → ∃ l found, limits'.of l < found ∧
        parse limits' naming' text = .error (.limitExceeded l (limits'.of l) found) := by
      intro hlow
      obtain ⟨l, found, hlt, hrefusal⟩ := hrefused hlow
      exact ⟨l, found, hlt, parse_of_ofText_error hrefusal naming'⟩
    refine ⟨⟨?_, fun hcover => ?_⟩, herror⟩
    · rintro ⟨q', hq'⟩
      refine Classical.byContradiction fun hlow => ?_
      obtain ⟨l, found, -, hrefusal⟩ := herror hlow
      rw [hq'] at hrefusal
      cases hrefusal
    · rw [parse_of_ofText (hread hcover) naming']
      exact exists_ofWritten (hread hcover) naming'
  · exact fun limits naming q => listed_of_parse

def enclosed : Query :=
  ⟨.select ⟨"t", [], some (.not (.compare .isIn ⟨"a", .list [.int 1, .param "x"]⟩)), [], 0, 0⟩,
    ⟨["x"], []⟩⟩

def enclosedText : String := "select * from t where not (a in [1, @x])"

theorem parse_enclosed : parse ⟨0, 2, 2, 1⟩ .identity enclosedText = .ok enclosed := by
  cbv

theorem enclosed_refused_only :
    parse {} .identity enclosedText = .ok enclosed ∧
    parse {} .identity "select * from t where a" =
      .error (unexpected "comparison operator" []) ∧
    (∃ needed : Limits, Limits.Cover ⟨0, 2, 2, 1⟩ needed ∧ ¬ Limits.Cover ⟨9, 1, 9, 9⟩ needed ∧
      ¬ Limits.Cover ⟨9, 9, 1, 9⟩ needed ∧ ¬ Limits.Cover ⟨9, 9, 9, 0⟩ needed) ∧
    enclosed.command.Listed 2 := by
  have hcover : Limits.Cover {} ⟨0, 2, 2, 1⟩ := by
    intro l
    cases l <;> decide
  refine ⟨?_, ?_, ?_, ?_⟩
  · exact ((limits_refuse_only enclosedText).1 _ _ _ hcover).1 _ parse_enclosed
  · have herror : parse ⟨0, 2, 2, 1⟩ .identity "select * from t where a" =
        .error (unexpected "comparison operator" []) := by
      cbv
    exact ((limits_refuse_only _).1 _ _ _ hcover).2 _ (by simp [unexpected, Fault.at]) herror
  · obtain ⟨needed, h⟩ := (limits_refuse_only enclosedText).2.1 ⟨_, _, _, parse_enclosed⟩
    have hlow : ∀ limits e, parse limits .identity enclosedText = .error e →
        ¬ limits.Cover needed := by
      intro limits e herror hcover
      obtain ⟨q, hq⟩ := (h limits .identity).1.2 hcover
      rw [herror] at hq
      cases hq
    refine ⟨needed, (h _ .identity).1.1 ⟨_, parse_enclosed⟩, ?_, ?_, ?_⟩
    · exact hlow _ (.limitExceeded .conditionDepth 1 2) (by cbv)
    · exact hlow _ (.limitExceeded .inList 1 2) (by cbv)
    · exact hlow _ (.limitExceeded .literalDepth 0 1) (by cbv)
  · exact (limits_refuse_only enclosedText).2.2 _ _ _ parse_enclosed

end Query

end RecordQuery
