import RecordQuery.Proofs.Grammar.Clause
import RecordQuery.Query

namespace RecordQuery

namespace Condition

variable {P Q : Comparison → Column → Prop}

mutual

def Each (P : Comparison → Column → Prop) : Condition → Prop
  | .compare k column => P k column
  | .group _ children => AllEach P children
  | .not inner => inner.Each P

def AllEach (P : Comparison → Column → Prop) : List Condition → Prop
  | [] => True
  | c :: cs => c.Each P ∧ AllEach P cs

end

theorem allEach_iff {cs : List Condition} : AllEach P cs ↔ ∀ c ∈ cs, c.Each P := by
  induction cs with
  | nil => simp [AllEach]
  | cons c cs ih => simp [AllEach, ih]

theorem allEach_append {cs ds : List Condition} :
    AllEach P (cs ++ ds) ↔ AllEach P cs ∧ AllEach P ds := by
  simp only [allEach_iff, List.mem_append, or_imp, forall_and]

theorem Each.negate {c : Condition} (h : c.Each P) : c.negate.Each P := by
  cases c <;> exact h

theorem Each.join {left right : Condition} {k : Connective} (hl : left.Each P)
    (hr : right.Each P) : (left.join k right).Each P := by
  unfold Condition.join
  split
  · next k' children =>
      split
      · exact allEach_append.2 ⟨hl, hr, trivial⟩
      · exact ⟨hl, hr, trivial⟩
  · exact ⟨hl, hr, trivial⟩

theorem ofColumn_eq_ok {k : Comparison} {column : Column} {c : Condition} :
    ofColumn k column = .ok c ↔ admits k column.value = .ok () ∧ .compare k column = c := by
  unfold ofColumn
  split
  · next h => simp [h]
  · next h => simp [h]

def Admitted (k : Comparison) (column : Column) : Prop := admits k column.value = .ok ()

theorem Admitted.exists_bounds {column : Column} (h : Admitted .between column) :
    ∃ low high, column.value = .list [low, high] := by
  unfold Admitted at h
  cases hv : column.value with
  | list items =>
      rw [hv] at h
      match items, h with
      | [low, high], _ => exact ⟨low, high, rfl⟩
  | null | bool | int | float | string | document | param =>
      rw [hv] at h
      cases h

end Condition

namespace Clause

variable {field : String → String}

mutual

def Each (P : String → Comparison → Value → Prop) : Clause → Prop
  | .compare name k v => P name k v
  | .not inner => inner.Each P
  | .chain first rest => first.Each P ∧ RestEach P rest

def RestEach (P : String → Comparison → Value → Prop) : List (Connective × Clause) → Prop
  | [] => True
  | (_, c) :: cs => c.Each P ∧ RestEach P cs

end

mutual

theorem each_of_forall {P : String → Comparison → Value → Prop} (hP : ∀ name k v, P name k v) :
    (c : Clause) → c.Each P
  | .compare name k v => hP name k v
  | .not inner => each_of_forall hP inner
  | .chain first rest => ⟨each_of_forall hP first, restEach_of_forall hP rest⟩

theorem restEach_of_forall {P : String → Comparison → Value → Prop}
    (hP : ∀ name k v, P name k v) : (rest : List (Connective × Clause)) → RestEach P rest
  | [] => trivial
  | (_, c) :: cs => ⟨each_of_forall hP c, restEach_of_forall hP cs⟩

end

theorem each_chainOf {P : String → Comparison → Value → Prop} {first : Clause}
    {rest : List (Connective × Clause)} :
    (Written.chainOf first rest).Each P ↔ first.Each P ∧ RestEach P rest := by
  cases rest <;> simp [Written.chainOf, Each, RestEach]

section Closed

variable {P : Condition → Prop}

structure Closed (P : Condition → Prop) : Prop where
  negate {c : Condition} : P c → P c.negate
  join {left right : Condition} {k : Connective} : P left → P right → P (left.join k right)

def AtLeaf (field : String → String) (P : Condition → Prop) (name : String) (k : Comparison)
    (v : Value) : Prop :=
  Condition.Admitted k ⟨field name, v⟩ → P (.compare k ⟨field name, v⟩)

mutual

theorem resolve_closed (hP : Closed P) : ∀ {c : Clause} {tree : Condition},
    c.Each (AtLeaf field P) → c.resolve field = .ok tree → P tree
  | .compare name k v, tree, hc, h => by
      obtain ⟨hadmits, rfl⟩ := Condition.ofColumn_eq_ok.1 h
      exact hc hadmits
  | .not inner, tree, hc, h => by
      obtain ⟨t, ht, rfl⟩ := Outcome.map_eq_ok.1 h
      exact hP.negate (resolve_closed (c := inner) hP hc ht)
  | .chain first rest, tree, hc, h => by
      obtain ⟨left, hleft, h⟩ := Outcome.bind_eq_ok.1 h
      exact resolveRest_closed hP hc.2 (resolve_closed hP hc.1 hleft) h

theorem resolveRest_closed (hP : Closed P) : ∀ {rest : List (Connective × Clause)}
    {left tree : Condition}, RestEach (AtLeaf field P) rest → P left →
      resolveRest field left rest = .ok tree → P tree
  | [], left, tree, _, hleft, h => by
      cases h
      exact hleft
  | (k, next) :: rest, left, tree, hc, hleft, h => by
      obtain ⟨right, hright, h⟩ := Outcome.bind_eq_ok.1 h
      exact resolveRest_closed hP hc.2 (hP.join hleft (resolve_closed hP hc.1 hright)) h

end

end Closed

theorem closed_each {P : Comparison → Column → Prop} : Closed (Condition.Each P) :=
  ⟨Condition.Each.negate, Condition.Each.join⟩

theorem each_admitted_of_resolve {c : Clause} {tree : Condition}
    (h : c.resolve field = .ok tree) : tree.Each Condition.Admitted :=
  resolve_closed closed_each (each_of_forall (fun _ _ _ hadmits => hadmits) c) h

section Success

def Admitted (c : Clause) : Prop := c.Each fun name k v => Condition.Admitted k ⟨name, v⟩

mutual

theorem exists_resolve : ∀ {c : Clause}, c.Admitted → ∃ tree, c.resolve field = .ok tree
  | .compare name k v, hc => ⟨_, Condition.ofColumn_eq_ok.2 ⟨hc, rfl⟩⟩
  | .not inner, hc => by
      obtain ⟨tree, h⟩ := exists_resolve (c := inner) hc
      exact ⟨_, Outcome.map_eq_ok.2 ⟨tree, h, rfl⟩⟩
  | .chain first rest, hc => by
      obtain ⟨left, hleft⟩ := exists_resolve hc.1
      obtain ⟨tree, h⟩ := exists_resolveRest left hc.2
      exact ⟨tree, Outcome.bind_eq_ok.2 ⟨left, hleft, h⟩⟩

theorem exists_resolveRest : ∀ (left : Condition) {rest : List (Connective × Clause)},
    RestEach (fun name k v => Condition.Admitted k ⟨name, v⟩) rest →
      ∃ tree, resolveRest field left rest = .ok tree
  | left, [], _ => ⟨left, rfl⟩
  | left, (k, next) :: rest, hc => by
      obtain ⟨right, hright⟩ := exists_resolve hc.1
      obtain ⟨tree, h⟩ := exists_resolveRest (left.join k right) hc.2
      exact ⟨tree, Outcome.bind_eq_ok.2 ⟨right, hright, h⟩⟩

end

end Success

end Clause

namespace Written

variable {limits : Limits} {L : Lexeme → Prop} {P : String → Comparison → Value → Prop}

theorem Operand.admitted {k : Comparison} {ls : List Lexeme} {v : Value} {name : String}
    (h : Operand limits k ls v) : Condition.Admitted k ⟨name, v⟩ := by
  cases h with
  | listed | members | param | bounds => rfl
  | value hin hbetween hv =>
      cases k <;> first | exact absurd rfl hin | exact absurd rfl hbetween | rfl

def AtCompare (limits : Limits) (L : Lexeme → Prop) (P : String → Comparison → Value → Prop) :
    Prop :=
  ∀ {name : String} {k : Comparison} {ls : List Lexeme} {v : Value}, name ≠ "not" →
    L (.word name) → Operand limits k ls v → (∀ l ∈ ls, L l) → P name k v

mutual

theorem Term.each (hP : AtCompare limits L P) : ∀ {depth : Nat} {ls : List Lexeme} {c : Clause},
    Term limits depth ls c → (∀ l ∈ ls, L l) → c.Each P
  | _, _, _, .not _ hc, hls => hc.each hP (by simp_all)
  | _, _, _, .group _ hc, hls => Clause.each_chainOf.2 (hc.each hP (by simp_all))
  | _, _, _, .compare hfield hv, hls => hP hfield (by simp_all) hv (by simp_all)
  | _, _, _, .negated hfield _ hv, hls => hP hfield (by simp_all) hv (by simp_all)

theorem Chain.each (hP : AtCompare limits L P) : ∀ {depth : Nat} {ls : List Lexeme}
    {first : Clause} {more : List (Connective × Clause)}, Chain limits depth ls first more →
      (∀ l ∈ ls, L l) → first.Each P ∧ Clause.RestEach P more
  | _, _, _, _, .one hc, hls => ⟨hc.each hP hls, trivial⟩
  | _, _, _, _, .cons hc hmore, hls => ⟨hc.each hP (by simp_all), hmore.each hP (by simp_all)⟩

end

theorem admitted_of_readClause {ts : List Token} {r : Read Token Clause ts}
    (h : readClause limits ts = .ok r) : r.value.Admitted := by
  obtain ⟨-, ls, first, more, hc, hr, -⟩ := gives_readClause_iff.1 ⟨r.shorter, h⟩
  rw [hr]
  exact Clause.each_chainOf.2 (hc.each (L := fun _ => True) (fun _ _ hv _ => hv.admitted) (by simp))

end Written

end RecordQuery
