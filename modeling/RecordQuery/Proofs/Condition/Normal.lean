import RecordQuery.Proofs.Condition.Resolve
import RecordQuery.Proofs.Value.Parts

namespace RecordQuery

open Token (IsWord Spelled)

namespace Condition

variable {σ : String → Value} {k : Comparison}

@[elab_as_elim]
theorem inductParts {P : Condition → Prop} (compare : ∀ k column, P (.compare k column))
    (group : ∀ k children, (∀ c ∈ children, P c) → P (.group k children))
    (not : ∀ inner, P inner → P (.not inner)) (c : Condition) : P c := by
  refine @Condition.rec P (fun cs => ∀ c ∈ cs, P c) compare group not ?_ ?_ c
  · simp
  · exact fun c cs hc hcs => List.forall_mem_cons.2 ⟨hc, hcs⟩

/-- Two conditions or more, of which the first is no group of the connective. -/
def Grouped (k : Connective) : List Condition → Prop
  | first :: _ :: _ => first.kind ≠ .group k
  | _ => False

theorem Grouped.concat {k : Connective} {children : List Condition} (h : Grouped k children)
    (c : Condition) : Grouped k (children ++ [c]) := by
  match children, h with
  | first :: second :: rest, h => exact h

mutual

/-- Negations do not stand under negations, nor groups first in groups of their connective. -/
def Normal : Condition → Prop
  | .compare .. => True
  | .group k children => Grouped k children ∧ AllNormal children
  | .not inner => inner.kind ≠ .negation ∧ inner.Normal

def AllNormal : List Condition → Prop
  | [] => True
  | c :: cs => c.Normal ∧ AllNormal cs

end

theorem allNormal_iff {cs : List Condition} : AllNormal cs ↔ ∀ c ∈ cs, c.Normal := by
  induction cs with
  | nil => simp [AllNormal]
  | cons c cs ih => simp [AllNormal, ih]

theorem normal_group {k : Connective} {children : List Condition} :
    (group k children).Normal ↔ Grouped k children ∧ ∀ c ∈ children, c.Normal := by
  rw [Normal, allNormal_iff]

theorem Normal.negate {c : Condition} (h : c.Normal) : c.negate.Normal := by
  cases c with
  | not inner => exact h.2
  | compare | group => exact ⟨by simp [kind], h⟩

theorem normal_pair {left right : Condition} {k : Connective} (hkind : left.kind ≠ .group k)
    (hl : left.Normal) (hr : right.Normal) : (group k [left, right]).Normal :=
  normal_group.2 ⟨hkind, by simp [hl, hr]⟩

theorem Normal.join {left right : Condition} {k : Connective} (hl : left.Normal)
    (hr : right.Normal) : (left.join k right).Normal := by
  unfold Condition.join
  split
  · next k' children =>
      split
      · -- the group grows at its end, so what it begins with stays
        next hk =>
          subst hk
          rw [normal_group] at hl ⊢
          refine ⟨hl.1.concat right, fun c hc => ?_⟩
          rcases List.mem_append.1 hc with hc | hc
          · exact hl.2 c hc
          · rw [List.mem_singleton.1 hc]
            exact hr
      · next hk => exact normal_pair (by simpa [kind] using hk) hl hr
  · next hgroup =>
      refine normal_pair (fun hkind => ?_) hl hr
      cases left with
      | group k' children => exact hgroup k' children rfl
      | compare | not => cases hkind

theorem join_of_kind_ne {left : Condition} {k : Connective} (h : left.kind ≠ .group k)
    (right : Condition) : left.join k right = .group k [left, right] := by
  cases left with
  | group k' children =>
      have hk : k' ≠ k := by
        rintro rfl
        exact h rfl
      rw [join, if_neg hk]
  | compare | not => rfl

theorem joinAll_group (k : Connective) (children cs : List Condition) :
    joinAll (group k children) (cs.map fun c => (k, c)) = group k (children ++ cs) := by
  induction cs generalizing children with
  | nil => simp [joinAll]
  | cons c cs ih =>
      calc joinAll (group k children) ((c :: cs).map fun c => (k, c))
        _ = joinAll ((group k children).join k c) (cs.map fun c => (k, c)) := rfl
        _ = joinAll (group k (children ++ [c])) (cs.map fun c => (k, c)) := by
          rw [join_group_self]
        _ = group k (children ++ c :: cs) := by
          rw [ih, List.append_assoc, List.singleton_append]

theorem joinAll_of_grouped {k : Connective} {first : Condition} {cs : List Condition}
    (h : Grouped k (first :: cs)) :
    joinAll first (cs.map fun c => (k, c)) = group k (first :: cs) := by
  match cs, h with
  | second :: cs, hkind =>
      calc joinAll first ((second :: cs).map fun c => (k, c))
        _ = joinAll (first.join k second) (cs.map fun c => (k, c)) := rfl
        _ = joinAll (group k [first, second]) (cs.map fun c => (k, c)) := by
          rw [join_of_kind_ne hkind]
        _ = group k (first :: second :: cs) := joinAll_group k [first, second] cs

theorem kind_subst (c : Condition) : (c.subst σ).kind = c.kind := by
  cases c <;> rfl

theorem Grouped.map_subst {k : Connective} {children : List Condition} (h : Grouped k children) :
    Grouped k (children.map (Condition.subst σ)) := by
  match children, h with
  | first :: second :: rest, h =>
      have hkind : (first.subst σ).kind ≠ .group k := by
        rw [kind_subst]
        exact h
      exact hkind

theorem Normal.subst {c : Condition} (h : c.Normal) : (c.subst σ).Normal := by
  induction c using inductParts with
  | compare => trivial
  | group k children ih =>
      rw [normal_group] at h
      rw [Condition.subst, substChildren_eq_map, normal_group]
      refine ⟨h.1.map_subst, fun d hd => ?_⟩
      obtain ⟨c, hc, rfl⟩ := List.mem_map.1 hd
      exact ih c hc (h.2 c hc)
  | not inner ih =>
      refine ⟨?_, ih h.2⟩
      rw [kind_subst]
      exact h.1

theorem Each.subst {P Q : Comparison → Column → Prop} {R : String → Prop} {c : Condition}
    (h : c.Each P)
    (hsubst : ∀ {k column}, P k column → (∀ n ∈ column.value.params, R n) →
      Q k ⟨column.name, asOperand k (column.value.subst σ)⟩)
    (hR : ∀ n ∈ c.params, R n) : (c.subst σ).Each Q := by
  induction c using inductParts with
  | compare k column => exact hsubst h hR
  | group k children ih =>
      rw [Each, allEach_iff] at h
      rw [params, childParams_eq_flatMap] at hR
      rw [Condition.subst, substChildren_eq_map, Each, allEach_iff]
      intro d hd
      obtain ⟨c, hc, rfl⟩ := List.mem_map.1 hd
      exact ih c hc (h c hc) fun n hn => hR n (List.mem_flatMap.2 ⟨c, hc, hn⟩)
  | not inner ih => exact ih h hR

structure Legible (k : Comparison) (column : Column) : Prop where
  word : IsWord column.name
  notNegation : column.name ≠ "not"
  admitted : Admitted k column
  formed : column.value.Each Value.Formed

theorem each_formed_asOperand {v : Value} (h : v.Each Value.Formed) :
    (asOperand k v).Each Value.Formed := by
  cases k with
  | isIn =>
      cases v with
      | list => exact h
      | null | bool | int | float | string | document | param => exact ⟨trivial, h, trivial⟩
  | equal | greater | greaterEqual | less | lessEqual | like | between => exact h

theorem Legible.subst {column : Column} (h : Legible k column)
    (hσ : ∀ n ∈ column.value.params, (σ n).Each Value.Formed) :
    Legible k ⟨column.name, asOperand k (column.value.subst σ)⟩ where
  word := h.word
  notNegation := h.notNegation
  admitted := h.admitted.subst column.name
  formed := each_formed_asOperand (Value.each_formed_subst h.formed hσ)

structure Readable (c : Condition) : Prop where
  normal : c.Normal
  legible : c.Each Legible

theorem Readable.subst {c : Condition} (h : c.Readable)
    (hσ : ∀ n ∈ c.params, (σ n).Each Value.Formed) : (c.subst σ).Readable :=
  ⟨h.normal.subst, h.legible.subst Legible.subst hσ⟩

end Condition

theorem Clause.closed_normal : Closed Condition.Normal :=
  ⟨Condition.Normal.negate, Condition.Normal.join⟩

namespace Written

variable {limits : Limits}

theorem Operand.formed {k : Comparison} {ls : List Lexeme} {v : Value} (h : Operand limits k ls v)
    (hls : ∀ l ∈ ls, Spelled l) : v.Each Value.Formed := by
  cases h with
  | listed hvs => exact Value.each_list.2 ⟨trivial, hvs.formed (by simp_all)⟩
  | members hv => exact hv.formed hls
  | param hv => exact hv.formed hls
  | bounds hlow hhigh =>
      exact ⟨trivial, hlow.formed (by simp_all), hhigh.formed (by simp_all), trivial⟩
  | value _ _ hv => exact hv.formed hls

theorem readable_of_readClause {ts : List Token} {r : Read Token Clause ts} {tree : Condition}
    (hts : ∀ t ∈ ts, Spelled t.lexeme) (h : readClause limits ts = .ok r)
    (htree : r.value.resolve (fun name => name) = .ok tree) : tree.Readable := by
  obtain ⟨-, ls, first, more, hc, hr, hs⟩ := gives_readClause_iff.1 ⟨r.shorter, h⟩
  have hls : ∀ l ∈ ls, Spelled l := (hs.forall_lexeme hts).1
  have hnormal : r.value.Each (Clause.AtLeaf (fun name => name) Condition.Normal) :=
    Clause.each_of_forall (fun _ _ _ _ => trivial) r.value
  have hlegible : r.value.Each
      (Clause.AtLeaf (fun name => name) (Condition.Each Condition.Legible)) := by
    rw [hr]
    exact Clause.each_chainOf.2 (hc.each (fun hname hword hv hls hadmits =>
      ⟨hword, hname, hadmits, hv.formed hls⟩) hls)
  exact ⟨Clause.resolve_closed Clause.closed_normal hnormal htree,
    Clause.resolve_closed Clause.closed_each hlegible htree⟩

end Written

end RecordQuery
