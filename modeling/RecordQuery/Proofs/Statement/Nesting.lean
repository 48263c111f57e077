import RecordQuery.Proofs.Condition.Nesting
import RecordQuery.Proofs.Statement.ReadBack
import RecordQuery.Proofs.Statement.Resolve

namespace RecordQuery

open Connective (switches)
open Token (IsWord Writes Spells)

namespace Condition

variable {σ : String → Value}

theorem depth_subst (c : Condition) : (c.subst σ).depth = c.depth := by
  have hchildren : ∀ cs : List Condition, (∀ c ∈ cs, (c.subst σ).depth = c.depth) →
      childDepth (cs.map (subst σ)) = childDepth cs := by
    intro cs hcs
    induction cs with
    | nil => rfl
    | cons c cs ih =>
        rw [List.forall_mem_cons] at hcs
        rw [List.map_cons, childDepth, childDepth, hcs.1, ih hcs.2]
  induction c using inductParts with
  | compare k column => rfl
  | group k children ih => rw [subst, substChildren_eq_map, depth, depth, hchildren children ih]
  | not inner ih => rw [subst, depth, depth, ih]

end Condition

namespace Command

def Within (n : Nat) (s : Command) : Prop := ∀ c ∈ s.condition?, c.depth ≤ n

theorem Within.subst {s : Command} {n : Nat} (h : s.Within n) (σ : String → Value) :
    (s.subst σ).Within n := by
  have hmap : ∀ {c : Option Condition}, (∀ d ∈ c, d.depth ≤ n) →
      ∀ d ∈ c.map (Condition.subst σ), d.depth ≤ n := by
    intro c hc d hd
    obtain ⟨e, he, rfl⟩ := Option.mem_map.1 hd
    rw [Condition.depth_subst]
    exact hc e he
  cases s with
  | select | delete => exact hmap h
  | insert | update => exact h

end Command

namespace Written

variable {limits : Limits}

/-- The most switches of connectives on the way to a comparison of the statement. -/
def turns (w : Written) : Nat := (w.clause?.map Clause.turns).getD 0

theorem within_of_readClause {ts : List Token} {r : Read Token Clause ts}
    (h : readClause limits ts = .ok r) (field : String → String) :
    r.value.Within field (limits.conditionDepth + r.value.turns + 2) := by
  obtain ⟨-, ls, first, more, hchain, hvalue, -⟩ := gives_readClause_iff.1 ⟨r.shorter, h⟩
  rw [hvalue]
  exact hchain.within_chainOf

theorem within_of_ofText {text : String} {w : Written} {s : Command} {naming : Naming}
    (h : ofText limits text = .ok w) (hs : w.resolve naming = .ok s) :
    s.Within (limits.conditionDepth + w.turns + 2) := by
  have hclause := clause_of_ofText (P := fun c => ∀ field,
    c.Within field (limits.conditionDepth + c.turns + 2)) within_of_readClause h
  intro tree htree
  obtain ⟨field, c, hc, hresolve⟩ := exists_clause_of_resolve hs tree htree
  have hturns : w.turns = c.turns := by rw [turns, hc]; rfl
  rw [hturns]
  exact hclause c hc field tree hresolve

section Deepest

def leaf : Clause := .compare "a" .like .null

def leafText : String := "a like null"

def leafLexemes : List Lexeme := [.word "a", .word "like", .word "null"]

def leafCondition : Condition := .compare .like ⟨"a", .null⟩

def turn (n : Nat) : Connective := if n % 2 = 0 then .and else .or

theorem turn_ne (n : Nat) : turn n ≠ turn (n + 1) := by
  unfold turn
  split <;> split <;> first | omega | decide

def links : Nat → Nat → List (Connective × Clause)
  | _, 0 => []
  | m, n + 1 => (turn m, leaf) :: links (m + 1) n

def linksLexemes (m n : Nat) : List Lexeme := linked (fun _ => leafLexemes) (links m n)

def linksText (m n : Nat) : String :=
  String.join ((links m n).map fun next => " " ++ next.1.symbol ++ " " ++ leafText)

theorem switches_links (m n : Nat) : switches ((links m (n + 1)).map Prod.fst) = n := by
  induction n generalizing m with
  | zero => rfl
  | succ n ih =>
      have hne := turn_ne m
      have hlinks : (links m (n + 1 + 1)).map Prod.fst =
          turn m :: turn (m + 1) :: (links (m + 2) n).map Prod.fst := rfl
      have hmore : turn (m + 1) :: (links (m + 2) n).map Prod.fst =
          (links (m + 1) (n + 1)).map Prod.fst := rfl
      rw [hlinks, switches, if_neg hne, hmore, ih]
      omega

theorem restTurns_links (m n : Nat) : Clause.restTurns (links m n) = 0 := by
  induction n generalizing m with
  | zero => rfl
  | succ n ih => rw [links, Clause.restTurns, ih]; rfl

def tower : Nat → Clause
  | 0 => .not leaf
  | n + 1 => chainOf (tower n) (links n 1)

def towerText : Nat → String
  | 0 => "a not like null"
  | n + 1 => "(" ++ (towerText n ++ linksText n 1) ++ ")"

def towerLexemes : Nat → List Lexeme
  | 0 => [.word "a", .word "not", .word "like", .word "null"]
  | n + 1 => .mark .openParen :: ((towerLexemes n ++ linksLexemes n 1) ++ [.mark .closeParen])

def towerCondition : Nat → Condition
  | 0 => .not leafCondition
  | n + 1 => .group (turn n) [towerCondition n, leafCondition]

theorem depth_towerCondition (n : Nat) : (towerCondition n).depth = n + 1 := by
  induction n with
  | zero => rfl
  | succ n ih =>
      have hleaf : leafCondition.depth = 0 := rfl
      rw [towerCondition, Condition.depth_pair, ih, hleaf, Nat.max_zero]

theorem kind_towerCondition (n : Nat) : (towerCondition n).kind ≠ .group (turn n) := by
  cases n with
  | zero => simp [towerCondition, Condition.kind]
  | succ n =>
      have := turn_ne n
      simpa [towerCondition, Condition.kind] using this

theorem resolveRest_links (m n : Nat) :
    Clause.resolveRest (fun name => name) (towerCondition m) (links m n) =
      .ok (towerCondition (m + n)) := by
  induction n generalizing m with
  | zero => rfl
  | succ n ih =>
      have hleaf : leaf.resolve (fun name => name) = .ok leafCondition := rfl
      have hsum : m + 1 + n = m + (n + 1) := Nat.add_right_comm m 1 n
      rw [links, Clause.resolveRest, hleaf, Outcome.ok_bind,
        Condition.join_of_kind_ne (kind_towerCondition m), ← towerCondition, ih, hsum]

theorem turns_tower (n : Nat) : (tower n).turns = 0 := by
  induction n with
  | zero => rfl
  | succ n ih =>
      rw [tower, Clause.turns_chainOf, switches_links, ih, restTurns_links]
      rfl

theorem resolve_chainOf_tower {m : Nat}
    (h : (tower m).resolve (fun name => name) = .ok (towerCondition m)) (n : Nat) :
    (chainOf (tower m) (links m n)).resolve (fun name => name) = .ok (towerCondition (m + n)) := by
  cases n with
  | zero => exact h
  | succ n => exact Outcome.bind_eq_ok.2 ⟨_, h, resolveRest_links m (n + 1)⟩

theorem resolve_tower (n : Nat) :
    (tower n).resolve (fun name => name) = .ok (towerCondition n) := by
  induction n with
  | zero => rfl
  | succ n ih => exact resolve_chainOf_tower ih 1

theorem operand_leaf : Operand limits .like [.word "null"] .null :=
  .value (by simp) (by simp) (.word rfl)

theorem term_leaf {depth : Nat} : Term limits depth leafLexemes leaf :=
  .compare (by decide) operand_leaf

theorem chain_links {depth : Nat} {ls : List Lexeme} {c : Clause} (h : Term limits depth ls c)
    (m n : Nat) : Chain limits depth (ls ++ linksLexemes m n) c (links m n) := by
  induction n generalizing m ls c with
  | zero =>
      have hnone : linksLexemes m 0 = [] := rfl
      rw [hnone, List.append_nil]
      exact .one h
  | succ n ih => exact .cons h (ih term_leaf (m + 1))

theorem term_tower {depth n : Nat} (h : depth + n ≤ limits.conditionDepth) :
    Term limits depth (towerLexemes n) (tower n) := by
  induction n generalizing depth with
  | zero => exact .negated (by decide) rfl operand_leaf
  | succ n ih =>
      have hn : depth + 1 + n ≤ limits.conditionDepth := by omega
      exact .group (by omega) (chain_links (ih hn) n 1)

theorem isWord_like : IsWord "like" := by decide

theorem isWord_a : IsWord "a" := by decide

theorem writes_leaf : Writes leafLexemes leafText.toList :=
  writes_word isWord_a (writes_word isWord_like (.word (by decide)))

theorem clausal_links (m n : Nat) : Clausal (linksLexemes m n) (linksText m n).toList := by
  induction n generalizing m with
  | zero => exact clausal_nil
  | succ n ih =>
      have htext : (linksText m (n + 1)).toList = (' ' :: ((turn m).symbol.toList ++
          ' ' :: leafText.toList)) ++ (linksText (m + 1) n).toList := by
        simp [linksText, links]
      rw [htext]
      exact (clausal_word (Token.isWord_symbol (turn m)) writes_leaf).append (ih (m + 1))

theorem writes_tower_links {n : Nat} (h : Writes (towerLexemes n) (towerText n).toList) (m : Nat) :
    Writes (towerLexemes n ++ linksLexemes n m) (towerText n ++ linksText n m).toList := by
  obtain ⟨hlinks, hbreaks⟩ := clausal_links n m
  rw [String.toList_append]
  exact h.append hlinks hbreaks

theorem writes_tower (n : Nat) : Writes (towerLexemes n) (towerText n).toList := by
  induction n with
  | zero =>
      exact writes_word isWord_a (writes_word (w := "not") (by decide)
        (writes_word isWord_like (.word (by decide))))
  | succ n ih =>
      have hlinked := writes_tower_links ih 1
      have htext : (towerText (n + 1)).toList =
          '(' :: ((towerText n ++ linksText n 1).toList ++ [')']) := by
        simp [towerText]
      rw [htext]
      exact Value.writes_enclosed rfl rfl (by decide) hlinked

def deepText (m n : Nat) : String :=
  selectText [] "t" ++ (" where " ++ (towerText m ++ linksText m n))

def deepWritten (m n : Nat) : Written :=
  .select ⟨"t", [], some (chainOf (tower m) (links m n)), [], 0, 0⟩

theorem ofText_deepText {m : Nat} (h : m ≤ limits.conditionDepth) (n : Nat) :
    ofText limits (deepText m n) = .ok (deepWritten m n) := by
  have hwhere : Clausal (.word "where" :: (towerLexemes m ++ linksLexemes m n))
      (" where " ++ (towerText m ++ linksText m n)).toList := by
    rw [String.toList_append]
    exact clausal_word (w := "where") (by decide) (writes_tower_links (writes_tower m) n)
  have hwrites := @writes_select _ _ [] "t" (by simp) (by decide) hwhere
  rw [← String.toList_append, ← deepText] at hwrites
  have htext : ∃ cs, (deepText m n).toList = Verb.select.keyword.toList ++ cs := by
    simp [deepText, selectText, Verb.keyword]
  obtain ⟨cs, htext⟩ := htext
  obtain ⟨ts, hs, hread⟩ := exists_spells_ofText htext hwrites
  have hdepth : 0 + m ≤ limits.conditionDepth := by rwa [Nat.zero_add]
  have hwindow : windowLexemes [] none none = [] := rfl
  rw [hread, readStatement]
  refine @readSelect_of_readsWhere limits ts [] "t" _ _ [] none none
    (readsWhere_of_chain (chain_links (term_tower hdepth) m n)) (by simp) (by simp) ?_
  rw [hwindow, List.append_nil]
  exact hs

theorem resolve_deepWritten (m n : Nat) : (deepWritten m n).resolve .identity =
    .ok (.select ⟨"t", [], some (towerCondition (m + n)), [], 0, 0⟩) := by
  have hclause := resolve_chainOf_tower (resolve_tower m) n
  exact Outcome.bind_eq_ok.2 ⟨_, Outcome.map_eq_ok.2 ⟨_, hclause, rfl⟩, rfl⟩

theorem turns_deepWritten (m n : Nat) : (deepWritten m (n + 1)).turns = n := by
  have hturns : (deepWritten m (n + 1)).turns = (chainOf (tower m) (links m (n + 1))).turns := rfl
  rw [hturns, Clause.turns_chainOf, switches_links, turns_tower, restTurns_links]
  rfl

end Deepest

end Written

namespace Query

theorem exists_deepest (limits : Limits) (n : Nat) :
    ∃ text w q, Written.ofText limits text = .ok w ∧ w.turns = n ∧
      parse limits .identity text = .ok q ∧
      ∃ c ∈ q.command.condition?, c.depth = limits.conditionDepth + n + 2 := by
  have hread := Written.ofText_deepText (Nat.le_refl limits.conditionDepth) (n + 1)
  have hresolve := Written.resolve_deepWritten limits.conditionDepth (n + 1)
  refine ⟨_, _, _, hread, Written.turns_deepWritten _ n,
    Outcome.bind_eq_ok.2 ⟨_, hread, Outcome.map_eq_ok.2 ⟨_, hresolve, rfl⟩⟩, _, rfl, ?_⟩
  rw [Written.depth_towerCondition]
  rfl

/-- The condition of every text that is read is at most two higher than the limit on nesting and the
switches of its connectives together, and so is what binding makes of it. No smaller bound holds:
under all limits, a text with any number of switches reaches this one. -/
theorem height_limited_with_turns :
    (∀ (limits : Limits) (naming : Naming) (text : String) (q : Query),
      parse limits naming text = .ok q →
        ∃ w, Written.ofText limits text = .ok w ∧
          q.command.Within (limits.conditionDepth + w.turns + 2) ∧
          ∀ binds s, ((Prepared.ofQuery q).bindAll binds).bound = .ok s →
            s.Within (limits.conditionDepth + w.turns + 2)) ∧
    ∀ (limits : Limits) (n : Nat), ∃ text w q, Written.ofText limits text = .ok w ∧ w.turns = n ∧
      parse limits .identity text = .ok q ∧
      ∃ c ∈ q.command.condition?, c.depth = limits.conditionDepth + n + 2 := by
  refine ⟨fun limits naming text q h => ?_, exists_deepest⟩
  obtain ⟨w, hw, hq⟩ := Outcome.bind_eq_ok.1 h
  obtain ⟨s, hs, rfl⟩ := Outcome.map_eq_ok.1 hq
  have hwithin := Written.within_of_ofText hw hs
  refine ⟨w, hw, hwithin, fun binds t ht => ?_⟩
  rw [Prepared.bound_bindAll h] at ht
  split at ht
  · cases ht
    exact hwithin.subst _
  · cases ht

def switching : Query :=
  ⟨.select ⟨"t", [], some (.group .or [.group .and [.group .or [
      .group .and [.not (.compare .like ⟨"a", .null⟩), .compare .equal ⟨"b", .param "x"⟩],
      .compare .equal ⟨"c", .int 1⟩], .compare .isIn ⟨"d", .list [.int 2]⟩],
      .compare .equal ⟨"e", .int 3⟩]), [], 0, 0⟩, ⟨["x"], []⟩⟩

def switchingText : String :=
  "select * from t where a not like null and b = @x or (c = 1) and d in [2] or e = 3"

theorem parse_switching : parse ⟨0, 1, 1, 1⟩ .identity switchingText = .ok switching := by
  cbv

theorem switching_limited : ∃ w, Written.ofText ⟨0, 1, 1, 1⟩ switchingText = .ok w ∧
    switching.command.Within (1 + w.turns + 2) ∧ ∃ s, s.Within (1 + w.turns + 2) ∧
      ((Prepared.ofQuery switching).bindAll [("x", .int 1)]).bound = .ok s := by
  obtain ⟨w, hw, hwithin, hbound⟩ := height_limited_with_turns.1 _ _ _ _ parse_switching
  obtain ⟨s, hs⟩ : ∃ s, ((Prepared.ofQuery switching).bindAll [("x", .int 1)]).bound = .ok s :=
    ⟨_, rfl⟩
  exact ⟨w, hw, hwithin, s, hbound _ s hs, hs⟩

/-- No bound on the height follows from the limit on nesting. -/
theorem height_not_limited_by_depth :
    ¬ ∃ bound : Nat → Nat, ∀ (limits : Limits) (naming : Naming) (text : String) (q : Query),
      parse limits naming text = .ok q → q.command.Within (bound limits.conditionDepth) := by
  rintro ⟨bound, hbound⟩
  obtain ⟨text, -, q, -, -, hparse, c, hc, hdepth⟩ := exists_deepest ⟨0, 0, 0, 0⟩ (bound 0)
  have hwithin : c.depth ≤ bound 0 := hbound _ _ _ _ hparse c hc
  rw [hdepth] at hwithin
  omega

end Query

end RecordQuery
