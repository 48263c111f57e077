import RecordQuery.Proofs.Condition.Normal
import RecordQuery.Proofs.Value.Writing

namespace RecordQuery

open Token (Writes IsWord)

theorem Token.isWord_symbol (k : Connective) : IsWord k.symbol := by
  cases k <;> decide

namespace Condition

def operandLexemes (k : Comparison) (v : Value) : List Lexeme :=
  match k, v with
  | .between, .list [low, high] => low.lexemes ++ .word Connective.and.symbol :: high.lexemes
  | _, v => v.lexemes

mutual

def lexemes : Condition → List Lexeme
  | .compare k column =>
      .word column.name :: Written.operator k :: operandLexemes k column.value
  | .group k children =>
      .mark .openParen :: ([.word k.symbol].intercalate (childLexemes children) ++
        [.mark .closeParen])
  | .not inner => .word "not" :: inner.lexemes

def childLexemes : List Condition → List (List Lexeme)
  | [] => []
  | c :: cs => c.lexemes :: childLexemes cs

end

theorem childLexemes_eq_map (cs : List Condition) : childLexemes cs = cs.map lexemes := by
  induction cs with
  | nil => rfl
  | cons c cs ih => simp [childLexemes, ih]

def Plain (c : Condition) : Prop := c.Each fun _ column => column.value.Each Value.Plain

theorem writes_operator (k : Comparison) : Writes [Written.operator k] k.symbol.toList := by
  cases k with
  | equal => exact Writes.nil.mark rfl
  | greater => exact .greater
  | greaterEqual => exact .greaterEqual
  | less => exact .less
  | lessEqual => exact .lessEqual
  | isIn | like | between => exact .word (by decide)

theorem writes_behind {name : String} {k : Comparison} {ls : List Lexeme} {cs : List Char}
    (hname : IsWord name) (h : Writes ls cs) :
    Writes (.word name :: Written.operator k :: ls)
      (name.toList ++ ' ' :: (k.symbol.toList ++ ' ' :: cs)) := by
  have hoperator := (writes_operator k).append h.blank Token.breaks_blank
  exact (Writes.word hname).append hoperator.blank Token.breaks_blank

theorem comparisonText_of_ne {k : Comparison} {column : Column} (h : k ≠ .between) :
    comparisonText k column = column.name ++ " " ++ k.symbol ++ " " ++ column.value.text := by
  cases k <;> first | exact absurd rfl h | rfl

theorem writes_compare {k : Comparison} {column : Column} (hl : Legible k column)
    (hp : column.value.Each Value.Plain) :
    Writes (compare k column).lexemes (comparisonText k column).toList := by
  have hv := hl.formed
  by_cases hk : k = .between
  · subst hk
    obtain ⟨low, high, heq⟩ := hl.admitted.exists_bounds
    have htext : (comparisonText .between column).toList = column.name.toList ++ ' ' ::
        (Comparison.between.symbol.toList ++ ' ' :: (low.text.toList ++
          ' ' :: (Connective.and.symbol.toList ++ ' ' :: high.text.toList))) := by
      unfold comparisonText
      simp [heq, Comparison.symbol, Connective.symbol]
    rw [heq, Value.each_list] at hv hp
    have hlow := Value.writes (hv.2 low (by simp)) (hp.2 low (by simp))
    have hhigh := Value.writes (hv.2 high (by simp)) (hp.2 high (by simp))
    obtain ⟨hand, hbreaks⟩ := Token.separates_word (Token.isWord_symbol .and) hhigh
    rw [lexemes, heq, htext]
    exact writes_behind hl.word (by simpa [operandLexemes] using hlow.append hand hbreaks)
  · have hvalue := Value.writes hv hp
    have htext : (comparisonText k column).toList = column.name.toList ++ ' ' ::
        (k.symbol.toList ++ ' ' :: column.value.text.toList) := by
      rw [comparisonText_of_ne hk]
      simp
    have hoperand : operandLexemes k column.value = column.value.lexemes := by
      cases k <;> first | exact absurd rfl hk | rfl
    rw [lexemes, hoperand, htext]
    exact writes_behind hl.word hvalue

theorem writes {c : Condition} (hl : c.Each Legible) (hp : c.Plain) :
    Writes c.lexemes c.text.toList := by
  induction c using inductParts with
  | compare k column => exact writes_compare hl hp
  | group k children ih =>
      rw [Each, allEach_iff] at hl
      rw [Plain, Each, allEach_iff] at hp
      have hchildren := Writes.intercalate (Token.separates_word (Token.isWord_symbol k))
        fun c hc => ih c hc (hl c hc) (hp c hc)
      have htext : (group k children).text.toList =
          '(' :: ((' ' :: (k.symbol.toList ++ [' '])).intercalate
            (children.map fun c => c.text.toList) ++ [')']) := by
        rw [text, childTexts_eq_map]
        simp [String.toList_intercalate, Function.comp_def]
      rw [lexemes, childLexemes_eq_map, htext]
      exact Value.writes_enclosed rfl rfl (by decide) hchildren
  | not inner ih =>
      have hnot : Writes [.word "not"] "not".toList := .word (by decide)
      rw [text, String.toList_append]
      exact hnot.append (ih hl hp).blank Token.breaks_blank

mutual

def depth : Condition → Nat
  | .compare .. => 0
  | .group _ children => childDepth children + 1
  | .not inner => inner.depth + 1

def childDepth : List Condition → Nat
  | [] => 0
  | c :: cs => max c.depth (childDepth cs)

end

theorem childDepth_le {cs : List Condition} {n : Nat} :
    childDepth cs ≤ n ↔ ∀ c ∈ cs, c.depth ≤ n := by
  induction cs with
  | nil => simp [childDepth]
  | cons c cs ih => rw [childDepth, Nat.max_le, ih, List.forall_mem_cons]

mutual

def greatest (f : Comparison → Value → Nat) : Condition → Nat
  | .compare k column => f k column.value
  | .group _ children => greatestOf f children
  | .not inner => inner.greatest f

def greatestOf (f : Comparison → Value → Nat) : List Condition → Nat
  | [] => 0
  | c :: cs => max (c.greatest f) (greatestOf f cs)

end

theorem greatestOf_le {f : Comparison → Value → Nat} {cs : List Condition} {n : Nat} :
    greatestOf f cs ≤ n ↔ ∀ c ∈ cs, c.greatest f ≤ n := by
  induction cs with
  | nil => simp [greatestOf]
  | cons c cs ih => rw [greatestOf, Nat.max_le, ih, List.forall_mem_cons]

def operandWidth : Comparison → Value → Nat
  | .isIn, .list items => items.length
  | _, _ => 0

/-- How deep the written values of a comparison nest; the bounds of a `between` are two. -/
def operandDepth : Comparison → Value → Nat
  | .between, .list [low, high] => max low.depth high.depth
  | _, v => v.depth

def needs (c : Condition) : Limits where
  cacheCapacity := 0
  conditionDepth := c.depth
  inList := c.greatest operandWidth
  literalDepth := c.greatest operandDepth

end Condition

/-- No limit is below the one needed. -/
def Limits.Cover (limits needed : Limits) : Prop := ∀ l, needed.of l ≤ limits.of l

namespace Written

open Condition (Legible)

variable {limits : Limits}

theorem Operand.of_column {k : Comparison} {column : Column} (hl : Legible k column)
    (hwidth : Condition.operandWidth k column.value ≤ limits.inList)
    (hdepth : Condition.operandDepth k column.value ≤ limits.literalDepth) :
    Operand limits k (Condition.operandLexemes k column.value) column.value := by
  have hadmitted := hl.admitted
  have hformed := hl.formed
  obtain ⟨name, v⟩ := column
  cases k with
  | isIn =>
      cases v with
      | list items => exact .members (.at_root hformed hdepth) hwidth
      | param n => exact .param (.param n)
      | null | bool | int | float | string | document => cases hadmitted
  | between =>
      obtain ⟨low, high, rfl⟩ := hadmitted.exists_bounds
      rw [Value.each_list] at hformed
      simp only [Condition.operandDepth, Nat.max_le] at hdepth
      exact .bounds (.at_root (hformed.2 low (by simp)) (by omega))
        (.at_root (hformed.2 high (by simp)) (by omega))
  | equal | greater | greaterEqual | less | lessEqual | like =>
      exact .value (by simp) (by simp) (.at_root hformed hdepth)

def Spelled (limits : Limits) (depth : Nat) (ls : List Lexeme) (c : Condition) : Prop :=
  ∃ clause, Term limits depth ls clause ∧ clause.resolve (fun name => name) = .ok c

theorem spelled_compare {depth : Nat} {k : Comparison} {column : Column} (hl : Legible k column)
    (hwidth : Condition.operandWidth k column.value ≤ limits.inList)
    (hdepth : Condition.operandDepth k column.value ≤ limits.literalDepth) :
    Spelled limits depth (Condition.compare k column).lexemes (.compare k column) :=
  ⟨_, .compare hl.notNegation (.of_column hl hwidth hdepth),
    Condition.ofColumn_eq_ok.2 ⟨hl.admitted, rfl⟩⟩

def linked {α : Type} (lexemes : α → List Lexeme) (rest : List (Connective × α)) : List Lexeme :=
  rest.flatMap fun next => .word next.1.symbol :: lexemes next.2

theorem intercalate_eq_linked {α : Type} (lexemes : α → List Lexeme) (k : Connective) (first : α)
    (rest : List α) : [.word k.symbol].intercalate ((first :: rest).map lexemes) =
      lexemes first ++ linked lexemes (rest.map fun next => (k, next)) := by
  induction rest generalizing first with
  | nil => simp [linked]
  | cons next rest ih =>
      rw [List.map_cons, List.map_cons, List.intercalate_cons_cons, ← List.map_cons, ih,
        List.append_assoc]
      rfl

theorem exists_chain {α : Type} {lexemes : α → List Lexeme} {condition : α → Condition}
    {depth : Nat} : ∀ {first : α} {rest : List (Connective × α)},
      Spelled limits depth (lexemes first) (condition first) →
      (∀ next ∈ rest, Spelled limits depth (lexemes next.2) (condition next.2)) →
      ∃ start more, Chain limits depth (lexemes first ++ linked lexemes rest) start more ∧
        start.resolve (fun name => name) = .ok (condition first) ∧ more.length = rest.length ∧
        ∀ left, Clause.resolveRest (fun name => name) left more =
          .ok (Condition.joinAll left (rest.map fun next => (next.1, condition next.2)))
  | first, [], hfirst, _ => by
      obtain ⟨clause, hc, hclause⟩ := hfirst
      rw [linked, List.flatMap_nil, List.append_nil]
      exact ⟨clause, [], .one hc, hclause, rfl, fun left => rfl⟩
  | first, (k, second) :: rest, hfirst, hrest => by
      obtain ⟨clause, hc, hclause⟩ := hfirst
      rw [List.forall_mem_cons] at hrest
      obtain ⟨start, more, hchain, hstart, hlength, hmore⟩ := exists_chain hrest.1 hrest.2
      refine ⟨clause, (k, start) :: more, .cons hc hchain, hclause, congrArg Nat.succ hlength, ?_⟩
      intro left
      rw [Clause.resolveRest, hstart, Outcome.ok_bind, hmore]
      rfl

theorem spelled_group {depth : Nat} {k : Connective} {children : List Condition}
    (hdepth : depth < limits.conditionDepth) (hgrouped : Condition.Grouped k children)
    (h : ∀ c ∈ children, Spelled limits (depth + 1) c.lexemes c) :
    Spelled limits depth (Condition.group k children).lexemes (.group k children) := by
  match children, hgrouped with
  | first :: second :: cs, hkind =>
      rw [List.forall_mem_cons] at h
      have hrest : ∀ next ∈ (second :: cs).map fun c => (k, c),
          Spelled limits (depth + 1) next.2.lexemes next.2 := by
        intro next hnext
        obtain ⟨c, hc, rfl⟩ := List.mem_map.1 hnext
        exact h.2 c hc
      obtain ⟨start, more, hchain, hstart, hlength, hmore⟩ :=
        @exists_chain limits Condition Condition.lexemes id (depth + 1) first _ h.1 hrest
      rw [Condition.lexemes, Condition.childLexemes_eq_map, intercalate_eq_linked]
      refine ⟨_, .group hdepth hchain, ?_⟩
      cases more with
      | nil => cases hlength
      | cons next more =>
          -- the first is no group of the connective, so the joining opens a new one for all
          refine Outcome.bind_eq_ok.2 ⟨first, hstart, ?_⟩
          rw [hmore, List.map_map]
          exact congrArg _ (Condition.joinAll_of_grouped hkind)

theorem spelled_of_condition {depth : Nat} {c : Condition} (hnormal : c.Normal)
    (hl : c.Each Legible) (hdepth : depth + c.depth ≤ limits.conditionDepth)
    (hwidth : c.greatest Condition.operandWidth ≤ limits.inList)
    (hliteral : c.greatest Condition.operandDepth ≤ limits.literalDepth) :
    Spelled limits depth c.lexemes c := by
  induction c using Condition.inductParts generalizing depth with
  | compare k column => exact spelled_compare hl hwidth hliteral
  | group k children ih =>
      rw [Condition.normal_group] at hnormal
      rw [Condition.Each, Condition.allEach_iff] at hl
      rw [Condition.depth] at hdepth
      rw [Condition.greatest, Condition.greatestOf_le] at hwidth hliteral
      refine spelled_group (by omega) hnormal.1 fun c hc => ?_
      have := Condition.childDepth_le.1 (Nat.le_refl _) c hc
      exact ih c hc (hnormal.2 c hc) (hl c hc) (by omega) (hwidth c hc) (hliteral c hc)
  | not inner ih =>
      rw [Condition.depth] at hdepth
      have hroom : depth + 1 + inner.depth ≤ limits.conditionDepth := by omega
      obtain ⟨clause, hc, hinner⟩ := ih hnormal.2 hl hroom hwidth hliteral
      refine ⟨_, .not (by omega) hc, ?_⟩
      rw [Clause.resolve, hinner]
      -- a negation of a negation would be read as what both negate
      cases inner with
      | not => exact absurd rfl hnormal.1
      | compare | group => rfl

inductive Filtered (limits : Limits) : List Lexeme → Option Condition → Prop
  | none : Filtered limits [] none
  | some {ls : List Lexeme} {first : Clause} {more : List (Connective × Clause)} {c : Condition}
      (hchain : Chain limits 0 ls first more)
      (hresolve : (chainOf first more).resolve (fun name => name) = .ok c) :
      Filtered limits (.word "where" :: ls) (some c)

theorem filtered_of_readable {c : Condition} (hc : c.Readable) (hlimits : limits.Cover c.needs) :
    Filtered limits (.word "where" :: c.lexemes) (some c) := by
  have hdepth : 0 + c.depth ≤ limits.conditionDepth := by
    rw [Nat.zero_add]
    exact hlimits .conditionDepth
  obtain ⟨clause, hterm, hresolve⟩ := spelled_of_condition hc.normal hc.legible hdepth
    (hlimits .inList) (hlimits .literalDepth)
  exact .some (.one hterm) hresolve

end Written

end RecordQuery
