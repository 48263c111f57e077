import RecordQuery.Proofs.Condition.Writing

/-!
How high the condition of a clause is. A chain of one connective is one group however long it is,
and each switch to the other connective puts all that stands before it one group deeper. So the
height is bounded by the nesting that was counted when the clause was read and by the switches.
-/

namespace RecordQuery

namespace Condition

theorem depth_negate_le (c : Condition) : c.negate.depth ≤ c.depth + 1 := by
  cases c with
  | not inner =>
      have : (not inner).depth = inner.depth + 1 := rfl
      rw [negate]
      omega
  | compare | group => exact Nat.le_refl _

theorem depth_pair (k : Connective) (left right : Condition) :
    (group k [left, right]).depth = max left.depth right.depth + 1 := by
  simp [depth, childDepth]

theorem exists_children {c : Condition} {k : Connective} (h : c.kind = .group k) :
    ∃ children, c = group k children := by
  cases c with
  | group k' children =>
      cases h
      exact ⟨children, rfl⟩
  | compare | not => cases h

theorem depth_join_le {left right : Condition} {k : Connective} {m n : Nat}
    (hright : right.depth ≤ m) (hleft : left.depth ≤ n) (hmn : m ≤ n) :
    (left.join k right).depth ≤ n + 1 ∧
      (left.kind = .group k → m < n → (left.join k right).depth ≤ n) := by
  by_cases hkind : left.kind = .group k
  · obtain ⟨children, rfl⟩ := exists_children hkind
    rw [depth] at hleft
    have hchildren : ∀ c ∈ children ++ [right], c.depth ≤ max (childDepth children) m := by
      have := childDepth_le.1 (Nat.le_refl (childDepth children))
      intro c hc
      rcases List.mem_append.1 hc with hc | hc
      · exact Nat.le_trans (this c hc) (Nat.le_max_left _ _)
      · rw [List.mem_singleton.1 hc]
        exact Nat.le_trans hright (Nat.le_max_right _ _)
    have := childDepth_le.2 hchildren
    rw [join_group_self, depth]
    omega
  · rw [join_of_kind_ne hkind, depth_pair]
    exact ⟨by omega, fun h => absurd h hkind⟩

end Condition

/-- How often a connective follows another one. -/
def Connective.switches : List Connective → Nat
  | k :: k' :: ks => (if k = k' then 0 else 1) + switches (k' :: ks)
  | _ => 0

namespace Clause

open Connective (switches)

mutual

/-- The most switches of connectives that a clause has on the way to one of its comparisons. -/
def turns : Clause → Nat
  | .compare .. => 0
  | .not inner => inner.turns
  | .chain first rest => switches (rest.map Prod.fst) + max first.turns (restTurns rest)

def restTurns : List (Connective × Clause) → Nat
  | [] => 0
  | (_, c) :: cs => max c.turns (restTurns cs)

end

theorem turns_chainOf (first : Clause) (rest : List (Connective × Clause)) :
    (Written.chainOf first rest).turns =
      switches (rest.map Prod.fst) + max first.turns (restTurns rest) := by
  cases rest with
  | nil => simp [Written.chainOf, switches, restTurns]
  | cons next rest => rfl

section Height

variable {field : String → String} {m n : Nat}

def Within (field : String → String) (n : Nat) (c : Clause) : Prop :=
  ∀ tree, c.resolve field = .ok tree → tree.depth ≤ n

theorem Within.mono {c : Clause} (h : c.Within field m) (hmn : m ≤ n) : c.Within field n :=
  fun tree htree => Nat.le_trans (h tree htree) hmn

theorem depth_resolveRest_le {rest : List (Connective × Clause)} {left tree : Condition}
    {k : Connective} (hrest : ∀ next ∈ rest, next.2.Within field m) (hkind : left.kind = .group k)
    (hleft : left.depth ≤ n) (hmn : m < n) (h : resolveRest field left rest = .ok tree) :
    tree.depth ≤ n + switches (k :: rest.map Prod.fst) := by
  induction rest generalizing left k n with
  | nil =>
      cases h
      exact hleft
  | cons next rest ih =>
      obtain ⟨k', c⟩ := next
      rw [List.forall_mem_cons] at hrest
      obtain ⟨right, hright, h⟩ := Outcome.bind_eq_ok.1 h
      have hjoin := Condition.depth_join_le (k := k') (hrest.1 right hright) hleft
        (Nat.le_of_lt hmn)
      have hkind' := left.kind_join right k'
      rw [List.map_cons, switches]
      by_cases hk : k = k'
      · subst hk
        have := ih hrest.2 hkind' (hjoin.2 hkind hmn) hmn h
        simpa using this
      · have := ih hrest.2 hkind' hjoin.1 (Nat.lt_succ_of_lt hmn) h
        rw [if_neg hk]
        dsimp only
        omega

theorem within_chainOf {first : Clause} {rest : List (Connective × Clause)}
    (hfirst : first.Within field m) (hrest : ∀ next ∈ rest, next.2.Within field m) :
    (Written.chainOf first rest).Within field (m + 1 + switches (rest.map Prod.fst)) := by
  intro tree h
  cases rest with
  | nil =>
      have := hfirst tree h
      omega
  | cons next rest =>
      obtain ⟨k, c⟩ := next
      rw [List.forall_mem_cons] at hrest
      obtain ⟨left, hleft, h⟩ := Outcome.bind_eq_ok.1 h
      obtain ⟨right, hright, h⟩ := Outcome.bind_eq_ok.1 h
      have hjoin := Condition.depth_join_le (k := k) (hrest.1 right hright) (hfirst left hleft)
        (Nat.le_refl m)
      exact depth_resolveRest_le hrest.2 (left.kind_join right k) hjoin.1 (Nat.lt_succ_self m) h

end Height

end Clause

namespace Written

variable {limits : Limits} {field : String → String}

mutual

theorem Term.within : ∀ {depth : Nat} {ls : List Lexeme} {c : Clause}, Term limits depth ls c →
    c.Within field (limits.conditionDepth - depth + c.turns + 1)
  | depth, _, _, .not hdepth hc, tree, h => by
      obtain ⟨t, ht, rfl⟩ := Outcome.map_eq_ok.1 h
      have := hc.within t ht
      have := t.depth_negate_le
      rw [Clause.turns]
      omega
  | depth, _, _, .group hdepth hc, tree, h => by
      obtain ⟨hfirst, hmore⟩ := hc.within
      have := Clause.within_chainOf hfirst hmore tree h
      rw [Clause.turns_chainOf]
      omega
  | _, _, _, .compare _ _, tree, h => by
      obtain ⟨-, rfl⟩ := Condition.ofColumn_eq_ok.1 h
      exact Nat.zero_le _
  | _, _, _, .negated _ _ _, tree, h => by
      obtain ⟨t, ht, rfl⟩ := Outcome.map_eq_ok.1 h
      obtain ⟨-, rfl⟩ := Condition.ofColumn_eq_ok.1 ht
      exact Nat.le_add_left 1 _

theorem Chain.within : ∀ {depth : Nat} {ls : List Lexeme} {first : Clause}
    {more : List (Connective × Clause)}, Chain limits depth ls first more →
      let n := limits.conditionDepth - depth + max first.turns (Clause.restTurns more) + 1
      first.Within field n ∧ ∀ next ∈ more, next.2.Within field n
  | _, _, first, _, .one hc =>
      ⟨hc.within.mono (by omega), by simp⟩
  | _, _, first, (k, next) :: more, .cons hc hmore => by
      obtain ⟨hnext, hmore⟩ := hmore.within
      have hturns : Clause.restTurns ((k, next) :: more) =
        max next.turns (Clause.restTurns more) := rfl
      refine ⟨hc.within.mono (by omega), List.forall_mem_cons.2 ⟨hnext.mono (by omega), ?_⟩⟩
      intro c hc
      exact (hmore c hc).mono (by omega)

end

theorem Chain.within_chainOf {ls : List Lexeme} {first : Clause} {more : List (Connective × Clause)}
    (h : Chain limits 0 ls first more) : (chainOf first more).Within field
      (limits.conditionDepth + (chainOf first more).turns + 2) := by
  obtain ⟨hfirst, hmore⟩ := h.within
  refine (Clause.within_chainOf hfirst hmore).mono ?_
  rw [Clause.turns_chainOf]
  omega

end Written

end RecordQuery
