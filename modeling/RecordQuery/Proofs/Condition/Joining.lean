import RecordQuery.Proofs.Condition.Nesting

namespace RecordQuery

open Connective (switches)

namespace Condition

mutual

-- the comparisons of a condition as they are read from left to right
def comparisons : Condition → List Condition
  | .compare k column => [.compare k column]
  | .group _ children => comparisonsOf children
  | .not inner => inner.comparisons

def comparisonsOf : List Condition → List Condition
  | [] => []
  | c :: cs => c.comparisons ++ comparisonsOf cs

end

mutual

-- how many conditions stand on the longest way from the root to a comparison
def height : Condition → Nat
  | .compare .. => 1
  | .group _ children => greatestHeight children + 1
  | .not inner => inner.height + 1

def greatestHeight : List Condition → Nat
  | [] => 0
  | c :: cs => max c.height (greatestHeight cs)

end

variable {first left right : Condition} {k k' : Connective} {rest : List (Connective × Condition)}

theorem comparisonsOf_append (cs ds : List Condition) :
    comparisonsOf (cs ++ ds) = comparisonsOf cs ++ comparisonsOf ds := by
  induction cs with
  | nil => rfl
  | cons c cs ih => simp [comparisonsOf, ih]

theorem greatestHeight_append (cs ds : List Condition) :
    greatestHeight (cs ++ ds) = max (greatestHeight cs) (greatestHeight ds) := by
  induction cs with
  | nil => simp [greatestHeight]
  | cons c cs ih => simp [greatestHeight, ih, Nat.max_assoc]

theorem comparisons_of_isComparison {c : Condition} (h : c.isComparison = true) :
    c.comparisons = [c] := by
  cases c with
  | compare => rfl
  | group | not => cases h

theorem height_of_isComparison {c : Condition} (h : c.isComparison = true) : c.height = 1 := by
  cases c with
  | compare => rfl
  | group | not => cases h

theorem kind_of_isComparison {c : Condition} (h : c.isComparison = true) (k : Connective) :
    c.kind ≠ .group k := by
  cases c with
  | compare => simp [kind]
  | group | not => cases h

theorem comparisons_pair (k : Connective) (left right : Condition) :
    (group k [left, right]).comparisons = left.comparisons ++ right.comparisons := by
  simp [comparisons, comparisonsOf]

theorem height_pair (k : Connective) (left right : Condition) :
    (group k [left, right]).height = max left.height right.height + 1 := by
  simp [height, greatestHeight]

-- what is joined comes behind all that stands there, in a group of its own or not
theorem comparisons_join (left right : Condition) (k : Connective) :
    (left.join k right).comparisons = left.comparisons ++ right.comparisons := by
  by_cases hkind : left.kind = .group k
  · obtain ⟨children, rfl⟩ := exists_children hkind
    simp [join_group_self, comparisons, comparisonsOf_append, comparisonsOf]
  · rw [join_of_kind_ne hkind, comparisons_pair]

theorem comparisons_joinAll (first : Condition) (rest : List (Connective × Condition)) :
    (joinAll first rest).comparisons =
      first.comparisons ++ rest.flatMap fun next => next.2.comparisons := by
  induction rest generalizing first with
  | nil => simp [joinAll]
  | cons next rest ih =>
      have hstep : joinAll first (next :: rest) = joinAll (first.join next.1 next.2) rest := rfl
      rw [hstep, ih, comparisons_join, List.flatMap_cons, List.append_assoc]

theorem kind_joinAll (first : Condition) (rest : List (Connective × Condition)) (k : Connective)
    (c : Condition) : (joinAll first (rest ++ [(k, c)])).kind = .group k := by
  rw [joinAll, List.foldl_append]
  exact kind_join _ _ k

theorem height_join_self (hleft : left.kind = .group k) (hright : right.height = 1)
    (hhigh : 1 < left.height) : (left.join k right).height = left.height := by
  obtain ⟨children, rfl⟩ := exists_children hleft
  rw [height] at hhigh
  rw [join_group_self, height, height, greatestHeight_append, greatestHeight, greatestHeight,
    hright]
  omega

theorem height_join_of_kind_ne (hleft : left.kind ≠ .group k) (hright : right.height = 1)
    (hhigh : 1 ≤ left.height) : (left.join k right).height = left.height + 1 := by
  rw [join_of_kind_ne hleft, height_pair, hright]
  omega

-- the invariant of the joining: the group at the root has the connective that was joined last
theorem height_joinAll (hrest : ∀ next ∈ rest, next.2.isComparison = true)
    (hleft : left.kind = .group k) (hhigh : 1 < left.height) :
    (joinAll left rest).height = left.height + switches (k :: rest.map Prod.fst) := by
  induction rest generalizing left k with
  | nil => rfl
  | cons next rest ih =>
      obtain ⟨k', c⟩ := next
      rw [List.forall_mem_cons] at hrest
      have hc := height_of_isComparison hrest.1
      have hstep : joinAll left ((k', c) :: rest) = joinAll (left.join k' c) rest := rfl
      rw [hstep, List.map_cons, switches]
      by_cases hk : k = k'
      · subst hk
        have hsame : (left.join k c).height = left.height := height_join_self hleft hc hhigh
        rw [ih hrest.2 (left.kind_join c k) (by omega), hsame, if_pos rfl, Nat.zero_add]
      · have hne : left.kind ≠ .group k' := by
          rw [hleft]
          intro heq
          exact hk (ConditionKind.group.inj heq)
        have hmore : (left.join k' c).height = left.height + 1 :=
          height_join_of_kind_ne hne hc (Nat.le_of_lt hhigh)
        rw [ih hrest.2 (left.kind_join c k') (by omega), hmore, if_neg hk]
        dsimp only
        omega

theorem height_joinAll_cons (hfirst : first.isComparison = true)
    (hright : right.isComparison = true) (hrest : ∀ next ∈ rest, next.2.isComparison = true) :
    (joinAll first ((k, right) :: rest)).height = 2 + switches (k :: rest.map Prod.fst) := by
  have hjoin := height_join_of_kind_ne (kind_of_isComparison hfirst k)
    (height_of_isComparison hright) (Nat.le_of_eq (height_of_isComparison hfirst).symm)
  rw [height_of_isComparison hfirst] at hjoin
  have hall := height_joinAll hrest (first.kind_join right k) (by omega)
  rwa [hjoin] at hall

/-- Comparisons joined from the left keep their order, none of them twice and none left out. Joined
to nothing a comparison stays as it is; otherwise the whole is a group of the last connective, two
high and one higher for every connective that differs from the one before it. -/
theorem joined_comparisons (hfirst : first.isComparison = true)
    (hrest : ∀ next ∈ rest, next.2.isComparison = true) :
    (joinAll first rest).comparisons = first :: rest.map Prod.snd ∧
    (rest = [] → joinAll first rest = first ∧ (joinAll first rest).height = 1) ∧
    ∀ k ∈ (rest.map Prod.fst).getLast?, (joinAll first rest).kind = .group k ∧
      (joinAll first rest).height = 2 + switches (rest.map Prod.fst) := by
  refine ⟨?_, ?_, ?_⟩
  · have hleaves : ∀ next ∈ rest, next.2.comparisons = [next.2] := fun next hnext =>
      comparisons_of_isComparison (hrest next hnext)
    rw [comparisons_joinAll, comparisons_of_isComparison hfirst, List.flatMap_def,
      List.map_congr_left hleaves, ← List.flatMap_def, List.map_eq_flatMap, List.singleton_append]
  · rintro rfl
    exact ⟨rfl, height_of_isComparison hfirst⟩
  · intro k hk
    constructor
    · obtain ⟨ks, hks⟩ := List.getLast?_eq_some_iff.1 hk
      obtain ⟨before, last, rfl, -, hlast⟩ := List.map_eq_append_iff.1 hks
      obtain ⟨⟨k', c⟩, rfl, rfl⟩ := List.map_eq_singleton_iff.1 hlast
      exact kind_joinAll first before k' c
    · cases rest with
      | nil => cases hk
      | cons next rest =>
          rw [List.forall_mem_cons] at hrest
          exact height_joinAll_cons hfirst hrest.1 hrest.2

def comparing (name : String) : Condition := .compare .equal ⟨name, .int 1⟩

theorem joined_in_turns :
    joinAll (comparing "a") [(.and, comparing "b"), (.and, comparing "a"), (.or, comparing "c"),
      (.and, comparing "a")] =
        .group .and [.group .or [.group .and [comparing "a", comparing "b", comparing "a"],
          comparing "c"], comparing "a"] ∧
    (joinAll (comparing "a") [(.and, comparing "b"), (.and, comparing "a"), (.or, comparing "c"),
      (.and, comparing "a")]).height = 4 := by
  have hrest : ∀ next ∈ [(Connective.and, comparing "b"), (.and, comparing "a"),
      (.or, comparing "c"), (.and, comparing "a")], next.2.isComparison = true := by
    decide
  have hfirst : (comparing "a").isComparison = true := rfl
  exact ⟨rfl, ((joined_comparisons hfirst hrest).2.2 .and rfl).2⟩

end Condition

end RecordQuery
