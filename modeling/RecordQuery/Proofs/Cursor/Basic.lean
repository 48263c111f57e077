import RecordQuery.Proofs.Grammar.Spelling
import RecordQuery.Proofs.Limits.Demand

/-!
Reading with a cursor. The tokens of a query stay as they are, with an end behind the last one; a
position moves over them, and two counters go up and down with the nesting. A step that looks up no
token, repeats itself without a token taken or leaves a counter changed breaks down. Here are the
steps on single tokens, and what it means that a step agrees with a reader.
-/

namespace RecordQuery

def QueryError.isMalformed : QueryError → Bool
  | .malformed .. => true
  | _ => false

structure Cursor where
  pos : Nat
  depth : Nat
  literalDepth : Nat
  deriving DecidableEq, Repr

namespace Cursor

/-- What a step may never do: look beyond the tokens, cut the text where no character starts, come
back to where it was, leave the nesting changed, or show a place in the text that is no token. -/
inductive Breakdown where
  | beyond
  | torn
  | stalled
  | uneven
  | misplaced
  deriving DecidableEq, Repr

/-- Why a step has no result. An error in the text is told by the place of its token. -/
inductive Halt where
  | malformed (fault : Fault) (place : Nat)
  | refused (e : QueryError) (h : e.isMalformed = false)
  | broken (b : Breakdown)

abbrev Step := Except Halt

def kindsOf (ts : List Token) : List (Option Lexeme) := ts.map (fun t => some t.lexeme) ++ [none]

def describe : Option Lexeme → String
  | none => "end of query"
  | some l => l.describe

def accept {α : Type} (o : Outcome α) : Step α :=
  match o with
  | .ok a => .ok a
  | .error e =>
      if h : e.isMalformed = false then .error (.refused e h) else .error (.broken .misplaced)

section Steps

variable {α : Type} (kinds : List (Option Lexeme))

def look (c : Cursor) : Step (Option Lexeme) :=
  match kinds[c.pos]? with
  | some k => .ok k
  | none => .error (.broken .beyond)

-- one token further on, or the end where there is none
def lookBehind (c : Cursor) : Step (Option Lexeme) :=
  look kinds { c with pos := min (c.pos + 1) (kinds.length - 1) }

-- the end is never left behind
def advance (c : Cursor) : Step Cursor := do
  match ← look kinds c with
  | some _ => .ok { c with pos := c.pos + 1 }
  | none => .ok c

def fail (fault : Fault) (c : Cursor) : Step α := .error (.malformed fault c.pos)

def unexpected (what : String) (c : Cursor) : Step α := do
  let k ← look kinds c
  fail (.expected what (describe k)) c

def standsAt (keyword : String) (c : Cursor) : Step Bool := do
  match ← look kinds c with
  | some (.word name) => .ok (name = keyword)
  | _ => .ok false

def eatKeyword (keyword : String) (c : Cursor) : Step (Bool × Cursor) := do
  let found ← standsAt kinds keyword c
  if found then
    let c ← advance kinds c
    .ok (true, c)
  else .ok (false, c)

def expectKeyword (keyword : String) (c : Cursor) : Step (Unit × Cursor) := do
  let (eaten, c') ← eatKeyword kinds keyword c
  if eaten then .ok ((), c') else unexpected kinds ("'" ++ keyword ++ "'") c

def eat (m : Mark) (c : Cursor) : Step (Bool × Cursor) := do
  let k ← look kinds c
  if k = some (.mark m) then
    let c ← advance kinds c
    .ok (true, c)
  else .ok (false, c)

def expect (m : Mark) (c : Cursor) : Step (Unit × Cursor) := do
  let (eaten, c') ← eat kinds m c
  if eaten then .ok ((), c') else unexpected kinds (Lexeme.mark m).describe c

def expectWord (what : String) (c : Cursor) : Step (String × Cursor) := do
  match ← look kinds c with
  | some (.word name) =>
      let c ← advance kinds c
      .ok (name, c)
  | _ => unexpected kinds what c

def expectEnd (c : Cursor) : Step (Unit × Cursor) := do
  match ← look kinds c with
  | none => .ok ((), c)
  | some _ => unexpected kinds "end of query" c

-- a repetition or a call of itself starts only behind the place where the last one started
def onward (start c : Cursor) :
    Step { c' : Cursor // start.pos < c'.pos ∧ c'.pos < kinds.length } :=
  if h : start.pos < c.pos ∧ c.pos < kinds.length then .ok ⟨c, h⟩ else .error (.broken .stalled)

end Steps

inductive Nesting where
  | condition
  | literal
  deriving DecidableEq, Repr

def Nesting.limited : Nesting → Limited
  | .condition => .conditionDepth
  | .literal => .literalDepth

def level : Nesting → Cursor → Nat
  | .condition, c => c.depth
  | .literal, c => c.literalDepth

def withLevel : Nesting → Nat → Cursor → Cursor
  | .condition, depth, c => { c with depth := depth }
  | .literal, depth, c => { c with literalDepth := depth }

@[simp] theorem pos_withLevel (n : Nesting) (depth : Nat) (c : Cursor) :
    (c.withLevel n depth).pos = c.pos := by
  cases n <;> rfl

-- reads one level deeper; the position stays, so the reading starts where this does
def deepened {α : Type} (limits : Limits) (n : Nesting) (c : Cursor)
    (read : (c' : Cursor) → c'.pos = c.pos → Step (α × Cursor)) : Step (α × Cursor) := do
  let found := c.level n + 1
  if limits.of n.limited < found then
    .error (.refused (.limitExceeded n.limited (limits.of n.limited) found) rfl)
  else
    let (v, c') ← read (c.withLevel n found) (pos_withLevel n found c)
    .ok (v, c'.withLevel n (c'.level n - 1))

-- what is read leaves the counters as they were
def even {α : Type} (start : Cursor) (s : Step (α × Cursor)) : Step (α × Cursor) := do
  let (v, c) ← s
  if c.depth = start.depth ∧ c.literalDepth = start.literalDepth then .ok (v, c)
  else .error (.broken .uneven)

def Halt.placed (all : List Token) : Halt → Option QueryError
  | .malformed fault place =>
      if place ≤ all.length then some (fault.at (all.drop place)) else none
  | .refused e _ => some e
  | .broken _ => none

def Stands (all rest : List Token) (c : Cursor) : Prop :=
  ∃ taken, all = taken ++ rest ∧ c.pos = taken.length

structure Reached (all : List Token) (start : Cursor) (rest : List Token) (c : Cursor) : Prop where
  stands : Stands all rest c
  depth : c.depth = start.depth
  literalDepth : c.literalDepth = start.literalDepth

/-- The step has the outcome of a reading: it comes to stand before what that leaves, with the
counters as they were, or halts with an error that is placed where that tells it. -/
def Agrees {ρ α : Type} (all : List Token) (view : ρ → α × List Token) (c : Cursor)
    (s : Step (α × Cursor)) (o : Outcome ρ) : Prop :=
  match o with
  | .ok r => ∃ c', s = .ok ((view r).1, c') ∧ Reached all c (view r).2 c'
  | .error e => ∃ halt, s = .error halt ∧ halt.placed all = some e

def readView {α : Type} {ts : List Token} (r : Read Token α ts) : α × List Token :=
  (r.value, r.rest)

def partlyView {α : Type} {ts : List Token} (p : Partly Token α ts) : α × List Token :=
  (p.value, p.rest)

variable {α β ρ π : Type} {all ts rest : List Token} {c c' start : Cursor} {t : Token}

theorem Reached.refl (h : Stands all rest c) : Reached all c rest c := ⟨h, rfl, rfl⟩

theorem Reached.trans {c'' : Cursor} {mid : List Token} (h : Reached all c mid c')
    (h' : Reached all c' rest c'') : Reached all c rest c'' :=
  ⟨h'.stands, h'.depth.trans h.depth, h'.literalDepth.trans h.literalDepth⟩

theorem stands_start : Stands all all ⟨0, 0, 0⟩ := ⟨[], rfl, rfl⟩

theorem Stands.drop (h : Stands all rest c) : all.drop c.pos = rest := by
  obtain ⟨taken, rfl, hpos⟩ := h
  rw [hpos, List.drop_left]

theorem Stands.pos_add (h : Stands all rest c) : c.pos + rest.length = all.length := by
  obtain ⟨taken, rfl, hpos⟩ := h
  rw [hpos, List.length_append]

theorem Reached.eq_end (h : Reached all ⟨0, 0, 0⟩ [] c) : c = ⟨all.length, 0, 0⟩ := by
  have hpos := h.stands.pos_add
  have hdepth := h.depth
  have hliteral := h.literalDepth
  cases c
  simp_all

theorem Stands.next (h : Stands all (t :: rest) c) :
    Stands all rest { c with pos := c.pos + 1 } := by
  obtain ⟨taken, rfl, hpos⟩ := h
  exact ⟨taken ++ [t], by simp, by simp [hpos]⟩

@[simp] theorem length_kindsOf (ts : List Token) : (kindsOf ts).length = ts.length + 1 := by
  simp [kindsOf]

theorem getElem?_kindsOf (taken rest : List Token) :
    (kindsOf (taken ++ rest))[taken.length]? = some (rest.head?.map Token.lexeme) := by
  cases rest <;> simp [kindsOf]

theorem look_eq (h : Stands all rest c) :
    look (kindsOf all) c = .ok (rest.head?.map Token.lexeme) := by
  obtain ⟨taken, rfl, hpos⟩ := h
  rw [look, hpos, getElem?_kindsOf]

theorem lookBehind_eq (h : Stands all (t :: rest) c) :
    lookBehind (kindsOf all) c = .ok (rest.head?.map Token.lexeme) := by
  have hpos := h.pos_add
  have hmin : min (c.pos + 1) ((kindsOf all).length - 1) = c.pos + 1 := by
    rw [List.length_cons] at hpos
    rw [length_kindsOf]
    omega
  rw [lookBehind, hmin, look_eq h.next]

theorem advance_eq (h : Stands all (t :: rest) c) :
    advance (kindsOf all) c = .ok { c with pos := c.pos + 1 } := by
  rw [advance, look_eq h]
  rfl

theorem onward_eq (h : Stands all ts start) (h' : Stands all rest c)
    (hlt : rest.length < ts.length) : ∃ hc, onward (kindsOf all) start c = .ok ⟨c, hc⟩ := by
  have hpos := h.pos_add
  have hpos' := h'.pos_add
  have hc : start.pos < c.pos ∧ c.pos < (kindsOf all).length := by
    rw [length_kindsOf]
    omega
  exact ⟨hc, dif_pos hc⟩

section Agreement

variable {view : ρ → α × List Token} {view' : π → β × List Token} {s : Step (α × Cursor)}
  {o : Outcome ρ}

theorem agrees_ok {v : α} {r : ρ} (h : Reached all c rest c') (hview : view r = (v, rest)) :
    Agrees all view c (.ok (v, c')) (.ok r) := by
  refine ⟨c', by rw [hview], ?_⟩
  rw [hview]
  exact h

theorem agrees_fail (fault : Fault) (h : Stands all rest c) :
    Agrees all view start (fail fault c) (.error (fault.at rest)) := by
  refine ⟨_, rfl, ?_⟩
  have hle : c.pos ≤ all.length := h.pos_add ▸ Nat.le_add_right _ _
  rw [Halt.placed, if_pos hle, h.drop]

theorem agrees_unexpected (what : String) (h : Stands all rest c) :
    Agrees all view start (unexpected (kindsOf all) what c)
      (.error (RecordQuery.unexpected what rest)) := by
  have hdescribe : describe (rest.head?.map Token.lexeme) = Token.describe rest := by
    cases rest <;> rfl
  rw [unexpected, look_eq h]
  change Agrees all view start (fail (.expected what (describe (rest.head?.map Token.lexeme))) c) _
  rw [hdescribe]
  exact agrees_fail _ h

theorem agrees_refused {e : QueryError} (he : e.isMalformed = false) :
    Agrees all view start (.error (.refused e he)) (.error e) := ⟨_, rfl, rfl⟩

theorem Agrees.bind {k : α × Cursor → Step (β × Cursor)} {f : ρ → Outcome π}
    (h : Agrees all view c s o)
    (hk : ∀ r c', Reached all c (view r).2 c' → Agrees all view' c' (k ((view r).1, c')) (f r)) :
    Agrees all view' c (s >>= k) (o >>= f) := by
  cases o with
  | error e =>
      obtain ⟨halt, rfl, hplaced⟩ := h
      exact ⟨halt, rfl, hplaced⟩
  | ok r =>
      obtain ⟨c', rfl, hreached⟩ := h
      have hnext := hk r c' hreached
      change Agrees all view' c (k ((view r).1, c')) (f r)
      cases hf : f r with
      | error e =>
          rw [hf] at hnext
          exact hnext
      | ok p =>
          rw [hf] at hnext
          obtain ⟨c'', hk', hreached'⟩ := hnext
          exact ⟨c'', hk', hreached.trans hreached'⟩

theorem Agrees.behind (hstart : Reached all start ts c) (h : Agrees all view c s o) :
    Agrees all view start s o := by
  cases o with
  | error e => exact h
  | ok r =>
      obtain ⟨c', hs, hreached⟩ := h
      exact ⟨c', hs, hstart.trans hreached⟩

theorem Agrees.map {k : α × Cursor → Step (β × Cursor)} {f : ρ → π} (h : Agrees all view c s o)
    (hk : ∀ r c', k ((view r).1, c') = .ok ((view' (f r)).1, c'))
    (hrest : ∀ r, (view' (f r)).2 = (view r).2) :
    Agrees all view' c (s >>= k) (o >>= fun r => .ok (f r)) := by
  refine h.bind fun r c' hreached => ?_
  rw [hk]
  refine agrees_ok (.refl hreached.stands) ?_
  rw [← hrest]

theorem Agrees.ite {p : Prop} [Decidable p] {s' : Step (α × Cursor)} {o' : Outcome ρ}
    (hpos : p → Agrees all view c s o) (hneg : ¬ p → Agrees all view c s' o') :
    Agrees all view c (if p then s else s') (if p then o else o') := by
  by_cases h : p
  · rw [if_pos h, if_pos h]
    exact hpos h
  · rw [if_neg h, if_neg h]
    exact hneg h

theorem Agrees.accept {k : α → Step (β × Cursor)} {o : Outcome α} {f : α → Outcome π}
    (ho : ∀ e, o = .error e → e.isMalformed = false)
    (hk : ∀ a, o = .ok a → Agrees all view' c (k a) (f a)) :
    Agrees all view' c (Cursor.accept o >>= k) (o >>= f) := by
  cases o with
  | error e =>
      rw [Cursor.accept, dif_pos (ho e rfl)]
      exact agrees_refused (ho e rfl)
  | ok a => exact hk a rfl

theorem Reached.leave {n : Nesting} (h : Reached all (c.withLevel n (c.level n + 1)) rest c') :
    Reached all c rest (c'.withLevel n (c'.level n - 1)) := by
  cases n with
  | condition => exact ⟨h.stands, congrArg (· - 1) h.depth, h.literalDepth⟩
  | literal => exact ⟨h.stands, h.depth, congrArg (· - 1) h.literalDepth⟩

theorem Stands.withLevel (n : Nesting) (depth : Nat) (h : Stands all ts c) :
    Stands all ts (c.withLevel n depth) := by
  cases n <;> exact h

theorem agrees_deepened {limits : Limits} {n : Nesting}
    {read : (c' : Cursor) → c'.pos = c.pos → Step (α × Cursor)} {f : Nat → Outcome ρ}
    (h : Agrees all view (c.withLevel n (c.level n + 1))
      (read (c.withLevel n (c.level n + 1)) (pos_withLevel n _ c)) (f (c.level n + 1))) :
    Agrees all view c (deepened limits n c read)
      (Written.deeper limits n.limited (c.level n) >>= f) := by
  rw [deepened, Written.deeper]
  dsimp only
  by_cases hlimit : limits.of n.limited < c.level n + 1
  · rw [if_pos hlimit, if_pos hlimit]
    exact agrees_refused rfl
  · rw [if_neg hlimit, if_neg hlimit, Outcome.ok_bind]
    cases hread : f (c.level n + 1) with
    | error e =>
        rw [hread] at h
        obtain ⟨halt, hs, hplaced⟩ := h
        exact ⟨halt, by rw [hs]; rfl, hplaced⟩
    | ok r =>
        rw [hread] at h
        obtain ⟨c', hs, hreached⟩ := h
        exact ⟨_, by rw [hs]; rfl, hreached.leave⟩

theorem Agrees.even (h : Agrees all view c s o) : Agrees all view c (even c s) o := by
  cases o with
  | error e =>
      obtain ⟨halt, rfl, hplaced⟩ := h
      exact ⟨halt, rfl, hplaced⟩
  | ok r =>
      obtain ⟨c', rfl, hreached⟩ := h
      exact ⟨c', if_pos ⟨hreached.depth, hreached.literalDepth⟩, hreached⟩

theorem Agrees.wrap {view' : π → α × List Token} {g : ρ → π} (h : Agrees all view c s o)
    (hg : ∀ r, view' (g r) = view r) : Agrees all view' c s (o >>= fun r => .ok (g r)) := by
  cases o with
  | error e => exact h
  | ok r =>
      obtain ⟨c', hs, hreached⟩ := h
      refine ⟨c', ?_, ?_⟩
      · rw [hg]
        exact hs
      · rw [hg]
        exact hreached

theorem Agrees.mapped {view' : π → α × List Token} {g : ρ → π} (h : Agrees all view c s o)
    (hg : ∀ r, view' (g r) = view r) : Agrees all view' c s (o.map g) := by
  cases o with
  | error e => exact h
  | ok r => exact h.wrap hg

theorem Agrees.bind_map {k : α × Cursor → Step (β × Cursor)} {g : ρ → π} (h : Agrees all view c s o)
    (hk : ∀ r c', k ((view r).1, c') = .ok ((view' (g r)).1, c'))
    (hrest : ∀ r, (view' (g r)).2 = (view r).2) : Agrees all view' c (s >>= k) (o.map g) := by
  cases o with
  | error e => exact h.map (f := g) hk hrest
  | ok r => exact h.map (f := g) hk hrest

end Agreement

section Tokens

open Written (skipKeyword skipKeyword_of_no_keyword comma?)

theorem Stands.reached_next (h : Stands all (t :: rest) c) :
    Reached all c rest { c with pos := c.pos + 1 } := ⟨h.next, rfl, rfl⟩

theorem agrees_expectWord (what : String) (h : Stands all ts c) :
    Agrees all readView c (expectWord (kindsOf all) what c) (Written.expectWord what ts) := by
  rw [expectWord, look_eq h]
  match ts with
  | ⟨.word name, source⟩ :: rest =>
      simp only [List.head?_cons, Option.map_some, Outcome.ok_bind, advance_eq h]
      exact agrees_ok h.reached_next rfl
  | [] | ⟨.string _, _⟩ :: _ | ⟨.int _, _⟩ :: _ | ⟨.decimal _, _⟩ :: _ | ⟨.param _, _⟩ :: _
  | ⟨.mark _, _⟩ :: _ => exact agrees_unexpected what h

theorem standsAt_eq (keyword : String) (h : Stands all ts c) :
    standsAt (kindsOf all) keyword c = .ok (skipKeyword keyword ts).value := by
  rw [standsAt, look_eq h]
  match ts with
  | ⟨.word name, source⟩ :: rest =>
      by_cases hname : name = keyword
      · simp [hname, skipKeyword, Partly.ofRead, Read.one, Outcome.ok_bind]
      · simp [hname, skipKeyword, Partly.nothing, Outcome.ok_bind]
  | [] | ⟨.string _, _⟩ :: _ | ⟨.int _, _⟩ :: _ | ⟨.decimal _, _⟩ :: _ | ⟨.param _, _⟩ :: _
  | ⟨.mark _, _⟩ :: _ => rfl

theorem skipKeyword_self (keyword : String) (source : List Char) (rest : List Token) :
    skipKeyword keyword (⟨.word keyword, source⟩ :: rest) = .ofRead (.one true _ rest) :=
  if_pos rfl

/-- Whether a keyword stands first, in the form in which the readers ask for a mark. -/
theorem keyword_or (keyword : String) (ts : List Token) :
    (∃ source rest, ts = ⟨.word keyword, source⟩ :: rest) ∨
      ∀ source rest, ts = ⟨.word keyword, source⟩ :: rest → False := by
  by_cases h : ∃ source rest, ts = ⟨.word keyword, source⟩ :: rest
  · exact .inl h
  · exact .inr fun source rest heq => h ⟨source, rest, heq⟩

theorem eatKeyword_eq_true {keyword : String} {source : List Char}
    (h : Stands all (⟨.word keyword, source⟩ :: rest) c) :
    eatKeyword (kindsOf all) keyword c = .ok (true, { c with pos := c.pos + 1 }) := by
  rw [eatKeyword, standsAt_eq keyword h, Outcome.ok_bind, skipKeyword_self, advance_eq h]
  rfl

theorem eatKeyword_eq_false {keyword : String} (h : Stands all ts c)
    (hts : ∀ source rest, ts = ⟨.word keyword, source⟩ :: rest → False) :
    eatKeyword (kindsOf all) keyword c = .ok (false, c) := by
  rw [eatKeyword, standsAt_eq keyword h, Outcome.ok_bind, skipKeyword_of_no_keyword hts]
  rfl

theorem agrees_eatKeyword (keyword : String) (h : Stands all ts c) :
    Agrees all partlyView c (eatKeyword (kindsOf all) keyword c)
      (.ok (skipKeyword keyword ts)) := by
  rcases keyword_or keyword ts with ⟨source, rest, rfl⟩ | hts
  · rw [skipKeyword_self, eatKeyword_eq_true h]
    exact agrees_ok h.reached_next rfl
  · rw [skipKeyword_of_no_keyword hts, eatKeyword_eq_false h hts]
    exact agrees_ok (.refl h) rfl

theorem agrees_expectKeyword (keyword : String) (h : Stands all ts c) :
    Agrees all readView c (expectKeyword (kindsOf all) keyword c)
      (Written.expectKeyword keyword ts) := by
  rw [expectKeyword]
  rcases keyword_or keyword ts with ⟨source, rest, rfl⟩ | hts
  · have hread : Written.expectKeyword keyword (⟨.word keyword, source⟩ :: rest) =
        .ok (.one () _ rest) := if_pos rfl
    rw [eatKeyword_eq_true h, hread]
    exact agrees_ok h.reached_next rfl
  · have hread : Written.expectKeyword keyword ts =
        .error (RecordQuery.unexpected ("'" ++ keyword ++ "'") ts) := by
      unfold Written.expectKeyword
      split
      · next word source rest =>
          have hword : word ≠ keyword := by
            rintro rfl
            exact hts source rest rfl
          exact if_neg hword
      · rfl
    rw [eatKeyword_eq_false h hts, hread]
    exact agrees_unexpected _ h

theorem eat_eq_true {m : Mark} {source : List Char}
    (h : Stands all (⟨.mark m, source⟩ :: rest) c) :
    eat (kindsOf all) m c = .ok (true, { c with pos := c.pos + 1 }) := by
  rw [eat, look_eq h, Outcome.ok_bind, advance_eq h]
  exact if_pos rfl

theorem head?_ne_of_no_mark {m : Mark}
    (hts : ∀ source rest, ts = ⟨.mark m, source⟩ :: rest → False) :
    ts.head?.map Token.lexeme ≠ some (.mark m) := by
  intro hhead
  cases ts with
  | nil => cases hhead
  | cons t rest =>
      obtain ⟨l, source⟩ := t
      cases hhead
      exact hts source rest rfl

theorem eat_eq_false {m : Mark} (h : Stands all ts c)
    (hts : ∀ source rest, ts = ⟨.mark m, source⟩ :: rest → False) :
    eat (kindsOf all) m c = .ok (false, c) := by
  rw [eat, look_eq h, Outcome.ok_bind]
  exact if_neg (head?_ne_of_no_mark hts)

theorem agrees_expect (m : Mark) (h : Stands all ts c) :
    Agrees all readView c (expect (kindsOf all) m c) (Written.expectMark m ts) := by
  rw [expect]
  rcases Written.mark_or m ts with ⟨source, rest, rfl⟩ | hts
  · have hread : Written.expectMark m (⟨.mark m, source⟩ :: rest) = .ok (.one () _ rest) :=
      if_pos rfl
    rw [eat_eq_true h, hread]
    exact agrees_ok h.reached_next rfl
  · have hread : Written.expectMark m ts =
        .error (RecordQuery.unexpected (Lexeme.mark m).describe ts) := by
      unfold Written.expectMark
      split
      · next m' source rest =>
          have hm : m' ≠ m := by
            rintro rfl
            exact hts source rest rfl
          exact if_neg hm
      · rfl
    rw [eat_eq_false h hts, hread]
    exact agrees_unexpected _ h

theorem eat_comma (h : Stands all ts c) :
    (∃ r c', comma? ts = some r ∧ eat (kindsOf all) .comma c = .ok (true, c') ∧
      Reached all c r.rest c') ∨
    (comma? ts = none ∧ eat (kindsOf all) .comma c = .ok (false, c)) := by
  rcases Written.mark_or .comma ts with ⟨source, rest, rfl⟩ | hts
  · exact .inl ⟨_, _, rfl, eat_eq_true h, h.reached_next⟩
  · refine .inr ⟨?_, eat_eq_false h hts⟩
    unfold comma?
    split
    · next source rest => exact absurd rfl (hts source rest)
    · rfl

theorem eat_comma_onward (h : Stands all ts start) (h' : Stands all rest c)
    (hlt : rest.length < ts.length) :
    (∃ r c' hc, comma? rest = some r ∧ eat (kindsOf all) .comma c = .ok (true, c') ∧
      onward (kindsOf all) start c' = .ok ⟨c', hc⟩ ∧ Reached all c r.rest c' ∧
      r.rest.length < ts.length) ∨
    (comma? rest = none ∧ eat (kindsOf all) .comma c = .ok (false, c)) := by
  rcases eat_comma h' with ⟨r, c', hcomma, heat, hnext⟩ | hnone
  · have hr : r.rest.length < ts.length := Nat.lt_trans r.shorter hlt
    obtain ⟨hc, honward⟩ := onward_eq h hnext.stands hr
    exact .inl ⟨r, c', hc, hcomma, heat, honward, hnext, hr⟩
  · exact .inr hnone

theorem agrees_expectEnd (h : Stands all ts c) :
    Agrees all (fun u : Unit => (u, [])) c (expectEnd (kindsOf all) c)
      (Written.expectEnd ts) := by
  rw [expectEnd, look_eq h]
  cases ts with
  | nil => exact agrees_ok (.refl h) rfl
  | cons t ts => exact agrees_unexpected "end of query" h

end Tokens

end Cursor

end RecordQuery
