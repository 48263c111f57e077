import RecordQuery.Written.Expect

namespace RecordQuery

namespace Outcome

variable {ε α β : Type}

theorem ok_bind (a : α) (f : α → Except ε β) : (Except.ok a >>= f) = f a := rfl

theorem ok_map (a : α) (f : α → β) : (Except.ok a : Except ε α).map f = .ok (f a) := rfl

theorem bind_eq_ok {x : Except ε α} {f : α → Except ε β} {b : β} :
    (x >>= f) = .ok b ↔ ∃ a, x = .ok a ∧ f a = .ok b := by
  cases x <;> simp [bind, Except.bind]

theorem map_eq_ok {x : Except ε α} {f : α → β} {b : β} :
    x.map f = .ok b ↔ ∃ a, x = .ok a ∧ f a = b := by
  cases x <;> simp [Except.map]

theorem map_eq_error {x : Except ε α} {f : α → β} {e : ε} :
    x.map f = .error e ↔ x = .error e := by
  cases x <;> simp [Except.map]

end Outcome

namespace Token

/-- The tokens begin with the lexemes, and the rest stands behind them. -/
def Spells : List Lexeme → List Token → List Token → Prop
  | [], ts, rest => ts = rest
  | l :: ls, ts, rest => ∃ source ts', ts = ⟨l, source⟩ :: ts' ∧ Spells ls ts' rest

namespace Spells

variable {ls ls' : List Lexeme} {ts mid rest : List Token} {l : Lexeme}

theorem cons {source : List Char} (h : Spells ls ts rest) :
    Spells (l :: ls) (⟨l, source⟩ :: ts) rest :=
  ⟨source, ts, rfl, h⟩

theorem append : ∀ {ls : List Lexeme} {ts : List Token},
    Spells ls ts mid → Spells ls' mid rest → Spells (ls ++ ls') ts rest
  | [], ts, h, h' => by
      subst h
      exact h'
  | l :: ls, ts, h, h' => by
      obtain ⟨source, ts', rfl, h⟩ := h
      exact cons (h.append h')

theorem split : ∀ {ls : List Lexeme} {ts : List Token},
    Spells (ls ++ ls') ts rest → ∃ mid, Spells ls ts mid ∧ Spells ls' mid rest
  | [], ts, h => ⟨ts, rfl, h⟩
  | l :: ls, ts, h => by
      obtain ⟨source, ts', rfl, h⟩ := h
      obtain ⟨mid, h, h'⟩ := split h
      exact ⟨mid, cons h, h'⟩

theorem uncons (h : Spells (l :: ls) ts rest) : ∃ mid, Spells [l] ts mid ∧ Spells ls mid rest :=
  @split ls rest [l] ts h

theorem length_eq : ∀ {ls : List Lexeme} {ts : List Token},
    Spells ls ts rest → ts.length = ls.length + rest.length
  | [], ts, h => by
      subst h
      simp
  | l :: ls, ts, h => by
      obtain ⟨source, ts', rfl, h⟩ := h
      have := h.length_eq
      simp only [List.length_cons]
      omega

theorem map_lexeme : ∀ {ls : List Lexeme} {ts : List Token},
    Spells ls ts rest → ts.map Token.lexeme = ls ++ rest.map Token.lexeme
  | [], ts, h => by
      subst h
      simp
  | l :: ls, ts, h => by
      obtain ⟨source, ts', rfl, h⟩ := h
      simp [h.map_lexeme]

theorem forall_lexeme {P : Lexeme → Prop} (h : Spells ls ts rest) (hts : ∀ t ∈ ts, P t.lexeme) :
    (∀ l ∈ ls, P l) ∧ ∀ t ∈ rest, P t.lexeme := by
  have hmap : ∀ l ∈ ts.map Token.lexeme, P l := List.forall_mem_map.2 hts
  rw [h.map_lexeme, List.forall_mem_append] at hmap
  exact ⟨hmap.1, List.forall_mem_map.1 hmap.2⟩

theorem of_map_lexeme : ∀ {ls : List Lexeme} {ts : List Token},
    ts.map Token.lexeme = ls ++ ls' →
      ∃ rest, Spells ls ts rest ∧ rest.map Token.lexeme = ls'
  | [], ts, h => ⟨ts, rfl, h⟩
  | l :: ls, [], h => by simp at h
  | l :: ls, ⟨l', source⟩ :: ts, h => by
      simp only [List.map_cons, List.cons_append, List.cons.injEq] at h
      obtain ⟨rfl, h⟩ := h
      obtain ⟨rest, hs, hrest⟩ := of_map_lexeme h
      exact ⟨rest, cons hs, hrest⟩

end Spells

end Token

namespace Written

open Token (Spells)

def Gives {α : Type} {ts : List Token} (r : Reading α ts) (v : α) (rest : List Token) : Prop :=
  ∃ h, r = .ok ⟨v, rest, h⟩

variable {α : Type} {ts rest : List Token}

theorem gives_one {v w : α} {t : Token} :
    Gives (.ok (.one v t ts)) w rest ↔ v = w ∧ ts = rest := by
  constructor
  · rintro ⟨hlt, h⟩
    cases h
    exact ⟨rfl, rfl⟩
  · rintro ⟨rfl, rfl⟩
    exact ⟨Nat.lt_succ_self _, rfl⟩

theorem not_gives_error {e : QueryError} {v : α} : ¬ Gives (.error e : Reading α ts) v rest := by
  rintro ⟨hlt, h⟩
  cases h

theorem gives_expectMark {m : Mark} :
    Gives (expectMark m ts) () rest ↔ Spells [.mark m] ts rest := by
  unfold expectMark
  split
  · next m' source ts' =>
      split
      · next hm => simp [gives_one, Spells, hm]
      · next hm => simp [not_gives_error, Spells, hm]
  · next hts =>
      refine iff_of_false not_gives_error ?_
      rintro ⟨source, ts', rfl, -⟩
      exact hts m source ts' rfl

theorem gives_expectWord (what : String) {name : String} :
    Gives (expectWord what ts) name rest ↔ Spells [.word name] ts rest := by
  unfold expectWord
  split
  · next name' source ts' => simp [gives_one, Spells]
  · next hts =>
      refine iff_of_false not_gives_error ?_
      rintro ⟨source, ts', rfl, -⟩
      exact hts name source ts' rfl

theorem gives_expectKeyword {keyword : String} :
    Gives (expectKeyword keyword ts) () rest ↔ Spells [.word keyword] ts rest := by
  unfold expectKeyword
  split
  · next word source ts' =>
      split
      · next hw => simp [gives_one, Spells, hw]
      · next hw => simp [not_gives_error, Spells, hw]
  · next hts =>
      refine iff_of_false not_gives_error ?_
      rintro ⟨source, ts', rfl, -⟩
      exact hts keyword source ts' rfl

theorem skipKeyword_of_no_keyword {keyword : String}
    (hts : ∀ source rest, ts = ⟨.word keyword, source⟩ :: rest → False) :
    skipKeyword keyword ts = .nothing false ts := by
  unfold skipKeyword
  split
  · next word source rest =>
      have hword : word ≠ keyword := by
        rintro rfl
        exact hts source rest rfl
      rw [if_neg hword]
  · rfl

end Written

end RecordQuery
