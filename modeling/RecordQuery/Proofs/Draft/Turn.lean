import Mathlib.Data.List.Induction
import RecordQuery.Proofs.Draft.Outline

/-!
Which calls are in turn. Whether one is out of turn is told by the last call of its part, that of
the condition or that of the sorting; the calls in turn are those that begin a condition as it is
asked for, and those that name sort fields, each with its direction or without.
-/

namespace RecordQuery

namespace Call

def Fluent : Call → Prop
  | .test t => t.Fluent
  | _ => True

/-- What is wrong with a call after the last one of its part. -/
def misuse? (last : Option Call) : Call → Option Misuse
  | .first _ =>
      match last with
      | none => none
      | some (.test _) => some .secondWhere
      | some _ => some .pendingField
  | .link .. =>
      match last with
      | none => some .noWhere
      | some (.test _) => none
      | some _ => some .pendingField
  | .not =>
      match last with
      | none | some (.test _) => some .notWithoutField
      | some _ => none
  | .test _ =>
      match last with
      | none | some (.test _) => some .comparisonWithoutField
      | some _ => none
  | .direction _ =>
      match last with
      | some (.orderBy _) => none
      | _ => some .directionWithoutSort
  | .source _ | .orderBy _ | .limit _ | .skip _ => none

/-- Calls none of which is out of turn after the one before it. -/
def Follow (last : Option Call) : List Call → Prop
  | [] => True
  | c :: cs => c.misuse? last = none ∧ Follow (some c) cs

theorem follow_append {last : Option Call} {cs cs' : List Call} :
    Follow last (cs ++ cs') ↔ Follow last cs ∧ Follow (cs.getLast?.or last) cs' := by
  induction cs generalizing last with
  | nil => simp [Follow]
  | cons c cs ih =>
      rw [List.cons_append, Follow, Follow, ih, and_assoc, List.getLast?_cons]
      cases cs.getLast? <;> rfl

theorem misuse?_of_follow {cs : List Call} {c : Call} {form : List Call} (hform : Follow none form)
    (h : cs ++ [c] <+: form) : c.misuse? cs.getLast? = none := by
  obtain ⟨rest, rfl⟩ := h
  have hc := (follow_append.1 (follow_append.1 hform).1).2
  rw [Option.or_none] at hc
  exact hc.1

end Call

namespace Draft

open Call (Follow follow_append)

def opening (made : Option Asking) (k : Connective) (field : String) : Call :=
  match made with
  | none => .first field
  | some _ => .link k field

namespace Asking

def add (made : Option Asking) (k : Connective) (next : Asked) : Asking :=
  match made with
  | none => ⟨next, []⟩
  | some a => ⟨a.first, a.more ++ [(k, next)]⟩

theorem calls_add (made : Option Asking) (k : Connective) (next : Asked) :
    (add made k next).calls = made.elim [] calls ++ opening made k next.field :: next.calls := by
  cases made with
  | none => simp [add, calls, opening]
  | some a => simp [add, calls, opening, linkCalls]

theorem condition_add_some (a : Asking) (k : Connective) (next : Asked) :
    (add (some a) k next).condition = a.condition.join k next.condition := by
  rw [add, condition, List.map_append, Condition.joinAll, List.foldl_append]
  rfl

end Asking

section Forms

theorem follow_asked {last : Option Call} (a : Asked)
    (hlast : Call.misuse? last .not = none ∧ Call.misuse? last (.test a.test) = none) :
    Follow last a.calls := by
  obtain ⟨field, n, t⟩ := a
  rw [Asked.calls]
  dsimp only at hlast ⊢
  induction n generalizing last with
  | zero => exact ⟨hlast.2, trivial⟩
  | succ n ih => exact ⟨hlast.1, ih ⟨rfl, rfl⟩⟩

theorem getLast?_asked (a : Asked) : a.calls.getLast? = some (.test a.test) := by
  rw [Asked.calls, List.getLast?_concat]

theorem getLast?_asking (a : Asking) : ∃ t, a.calls.getLast? = some (.test t) := by
  obtain ⟨first, more⟩ := a
  induction more using List.reverseRecOn with
  | nil =>
      refine ⟨first.test, ?_⟩
      rw [Asking.calls, List.flatMap_nil, List.append_nil, List.getLast?_cons, getLast?_asked]
      rfl
  | append_singleton more next _ =>
      refine ⟨next.2.test, ?_⟩
      have hadd := Asking.calls_add (some ⟨first, more⟩) next.1 next.2
      rw [Asking.add] at hadd
      rw [hadd, List.getLast?_append, List.getLast?_cons, getLast?_asked]
      rfl

theorem follow_asking (a : Asking) : Follow none a.calls := by
  obtain ⟨first, more⟩ := a
  induction more using List.reverseRecOn with
  | nil =>
      rw [Asking.calls, List.flatMap_nil, List.append_nil]
      exact ⟨rfl, follow_asked first ⟨rfl, rfl⟩⟩
  | append_singleton more next ih =>
      obtain ⟨t, hlast⟩ := getLast?_asking ⟨first, more⟩
      have hadd := Asking.calls_add (some ⟨first, more⟩) next.1 next.2
      rw [Asking.add] at hadd
      rw [hadd, follow_append]
      refine ⟨ih, ?_⟩
      rw [Option.elim_some, hlast]
      exact ⟨rfl, follow_asked next.2 ⟨rfl, rfl⟩⟩

theorem follow_sorts (last : Option Call) (ss : List Written.SortField) :
    Follow last (ss.flatMap Listing.sortCalls) := by
  induction ss generalizing last with
  | nil => trivial
  | cons s ss ih =>
      obtain ⟨name, direction⟩ := s
      cases direction with
      | none => exact ⟨rfl, ih _⟩
      | some d => exact ⟨rfl, rfl, ih _⟩

end Forms

/-- Calls that are in turn so far: those of the condition begin one, and each direction stands right
behind a sort field. -/
def InTurn (cs : List Call) : Prop :=
  (∃ a : Asking, cs.filter Call.inCondition <+: a.calls) ∧
    ∃ ss : List Written.SortField, cs.filter Call.inSorting <+: ss.flatMap Listing.sortCalls

def lastOfPart (c : Call) (cs : List Call) : Option Call :=
  (cs.filter fun c' => if c.inCondition then c'.inCondition else c'.inSorting).getLast?

theorem InTurn.of_append {cs cs' : List Call} (h : InTurn (cs ++ cs')) : InTurn cs := by
  obtain ⟨⟨a, ha⟩, ss, hss⟩ := h
  rw [List.filter_append] at ha hss
  exact ⟨⟨a, (List.prefix_append _ _).trans ha⟩, ss, (List.prefix_append _ _).trans hss⟩

theorem InTurn.misuse? {cs : List Call} {c : Call} (h : InTurn (cs ++ [c])) :
    c.misuse? (lastOfPart c cs) = none := by
  obtain ⟨⟨a, ha⟩, ss, hss⟩ := h
  rw [List.filter_append] at ha hss
  cases c with
  | first | link | not | test => exact Call.misuse?_of_follow (follow_asking a) ha
  | direction => exact Call.misuse?_of_follow (follow_sorts none ss) hss
  | source | orderBy | limit | skip => rfl

end Draft

end RecordQuery
