import RecordQuery.Proofs.Draft.Turn

namespace RecordQuery

namespace Draft

open Call (misuse?)

section Conditions

variable {fs : List Call} {f : Filter}

/-- Where the calls of a condition have brought it: to comparisons that are made, or to a field that
waits for its own. -/
inductive Standing : List Call → Filter → Prop where
  | made (a : Option Asking) (k : Option Connective) :
      Standing (a.elim [] Asking.calls) ⟨none, k, false, a.map Asking.condition⟩
  | begun (a : Option Asking) (k : Connective) (field : String) (n : Nat) :
      Standing (a.elim [] Asking.calls ++ opening a k field :: List.replicate n .not)
        ⟨some field, a.map fun _ => k, n % 2 = 1, a.map Asking.condition⟩

theorem misuse?_begun (a : Option Asking) (k : Connective) (field : String) (n : Nat) (c : Call) :
    c.misuse? (a.elim [] Asking.calls ++ opening a k field :: List.replicate n .not).getLast? =
      c.misuse? (some .not) := by
  rw [List.getLast?_append, List.getLast?_cons, List.getLast?_replicate]
  cases n with
  | zero => cases a <;> cases c <;> rfl
  | succ n => rfl

theorem test_begun (a : Option Asking) (k : Connective) (field : String) (n : Nat) {t : Test}
    (ht : t.Fluent) :
    Filter.test ⟨some field, a.map fun _ => k, n % 2 = 1, a.map Asking.condition⟩ t =
      .ok ⟨none, a.map fun _ => k, false,
        some (Asking.add a k ⟨field, n, t⟩).condition⟩ := by
  have hnext : (if decide (n % 2 = 1) then
      Condition.negate (.compare t.comparison ⟨field, t.operand⟩)
        else .compare t.comparison ⟨field, t.operand⟩) = Asked.condition ⟨field, n, t⟩ :=
    (Asked.condition_eq ⟨field, n, t⟩).symm
  rw [Filter.test]
  simp only [Test.on_of_fluent ht, Outcome.ok_bind, hnext]
  cases a with
  | none => rfl
  | some a =>
      rw [Asking.condition_add_some]
      rfl

theorem Standing.call (h : Standing fs f) {c : Call} (hc : c.inCondition = true)
    (hfluent : c.Fluent) :
    (∃ m, c.misuse? fs.getLast? = some m ∧ f.call c = .error (.misuse m)) ∨
      (c.misuse? fs.getLast? = none ∧
        ∃ g, f.call c = .ok g ∧ Standing (fs ++ [c]) g) := by
  cases h with
  | made a k =>
      cases a with
      | none =>
          cases c with
          | first field =>
              exact .inr ⟨rfl, _, rfl, .begun none .and field 0⟩
          | link | not | test => exact .inl ⟨_, rfl, rfl⟩
          | source | orderBy | direction | limit | skip => cases hc
      | some a =>
          obtain ⟨t, hlast⟩ := getLast?_asking a
          rw [Option.elim_some, hlast]
          cases c with
          | link k' field => exact .inr ⟨rfl, _, rfl, .begun (some a) k' field 0⟩
          | first | not | test => exact .inl ⟨_, rfl, rfl⟩
          | source | orderBy | direction | limit | skip => cases hc
  | begun a k field n =>
      rw [misuse?_begun a k field n c]
      cases c with
      | first | link => exact .inl ⟨_, rfl, rfl⟩
      | not =>
          have hstanding := Standing.begun a k field (n + 1)
          rw [List.replicate_succ', ← flag_succ, ← List.cons_append,
            ← List.append_assoc] at hstanding
          exact .inr ⟨rfl, _, rfl, hstanding⟩
      | test t =>
          have hstanding := Standing.made (some (Asking.add a k ⟨field, n, t⟩)) (a.map fun _ => k)
          rw [Option.elim_some, Asking.calls_add, Asked.calls, ← List.cons_append,
            ← List.append_assoc] at hstanding
          exact .inr ⟨rfl, _, test_begun a k field n hfluent, hstanding⟩
      | source | orderBy | direction | limit | skip => cases hc

theorem Standing.exists_asking (h : Standing fs f) :
    ∃ a : Asking, fs <+: a.calls := by
  cases h with
  | made a k =>
      cases a with
      | none => exact ⟨⟨⟨"", 0, .isIn []⟩, []⟩, List.nil_prefix⟩
      | some a => exact ⟨a, List.prefix_refl _⟩
  | begun a k field n =>
      refine ⟨Asking.add a k ⟨field, n, .isIn []⟩, ?_⟩
      rw [Asking.calls_add, Asked.calls, ← List.cons_append, ← List.append_assoc]
      exact List.prefix_append _ _

theorem Standing.finish (h : Standing fs f) :
    (∃ a : Option Asking, fs = a.elim [] Asking.calls ∧
      f.finish = .ok (a.map Asking.condition)) ∨
    ((∀ a : Option Asking, fs ≠ a.elim [] Asking.calls) ∧
      f.finish = .error (.misuse .danglingField)) := by
  cases h with
  | made a k => exact .inl ⟨a, rfl, rfl⟩
  | begun a k field n =>
      refine .inr ⟨fun a' h => ?_, rfl⟩
      -- the two are told apart by what is wrong with another field after them
      have hnext := misuse?_begun a k field n (.first field)
      rw [h] at hnext
      cases a' with
      | none => cases hnext
      | some a' =>
          obtain ⟨t, ht⟩ := getLast?_asking a'
          rw [Option.elim_some, ht] at hnext
          cases hnext

end Conditions

section Sorting

variable {gs : List Call} {d : Draft}

inductive Ranked : List Call → List SortKey → Option String → Prop where
  | settled (ss : List Written.SortField)
      (hlast : ∀ name, (ss.flatMap Listing.sortCalls).getLast? ≠ some (.orderBy name)) :
      Ranked (ss.flatMap Listing.sortCalls) (ss.map Written.SortField.key) none
  | waiting (ss : List Written.SortField) (name : String) :
      Ranked (ss.flatMap Listing.sortCalls ++ [.orderBy name]) (ss.map Written.SortField.key)
        (some name)

theorem Ranked.orderBy (h : Ranked gs d.sorts d.pending) (name : String) :
    Ranked (gs ++ [.orderBy name]) (d.call (.orderBy name)).sorts
      (d.call (.orderBy name)).pending := by
  obtain ⟨fields, entity, f, sorts, pending, limit, skip, error⟩ := d
  cases h with
  | settled ss => exact .waiting ss name
  | waiting ss old =>
      have hwaiting := Ranked.waiting (ss ++ [⟨old, none⟩]) name
      rw [List.flatMap_append, List.map_append] at hwaiting
      exact hwaiting

theorem Ranked.direction (h : Ranked gs d.sorts d.pending) (herror : d.error = none)
    (direction : Direction) :
    (∃ m, misuse? gs.getLast? (.direction direction) = some m ∧
      (d.call (.direction direction)).error = some (.misuse m)) ∨
    (misuse? gs.getLast? (.direction direction) = none ∧
      (d.call (.direction direction)).error = none ∧
      Ranked (gs ++ [.direction direction]) (d.call (.direction direction)).sorts
        (d.call (.direction direction)).pending) := by
  obtain ⟨fields, entity, f, sorts, pending, limit, skip, error⟩ := d
  cases herror
  cases h with
  | settled ss hlast =>
      refine .inl ⟨_, ?_, rfl⟩
      cases hcs : (ss.flatMap Listing.sortCalls).getLast? with
      | none => rfl
      | some c =>
          cases c with
          | orderBy name => exact absurd hcs (hlast name)
          | _ => rfl
  | waiting ss name =>
      have hcalls : (ss ++ [(⟨name, some direction⟩ : Written.SortField)]).flatMap
          Listing.sortCalls = ss.flatMap Listing.sortCalls ++ [.orderBy name] ++
            [.direction direction] := by
        rw [List.flatMap_append, List.append_assoc]
        rfl
      have hsettled := Ranked.settled (ss ++ [⟨name, some direction⟩])
      rw [hcalls, List.getLast?_concat, List.map_append] at hsettled
      rw [List.getLast?_concat]
      exact .inr ⟨rfl, rfl, hsettled fun name h => by cases h⟩

theorem Ranked.exists_keys (h : Ranked gs d.sorts d.pending) :
    ∃ ss : List Written.SortField, gs = ss.flatMap Listing.sortCalls ∧
      d.keys = ss.map Written.SortField.key := by
  obtain ⟨fields, entity, f, sorts, pending, limit, skip, error⟩ := d
  cases h with
  | settled ss => exact ⟨ss, rfl, List.append_nil _⟩
  | waiting ss name =>
      refine ⟨ss ++ [⟨name, none⟩], ?_, ?_⟩
      · rw [List.flatMap_append]
        rfl
      · rw [List.map_append]
        rfl

end Sorting

end Draft

end RecordQuery
