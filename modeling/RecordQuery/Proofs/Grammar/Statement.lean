import RecordQuery.Proofs.Grammar.Clause
import RecordQuery.Statement.Text
import RecordQuery.Written.Statement

namespace RecordQuery.Written

open Token (Spells)

variable {ts rest : List Token}

def commaWords (names : List String) : List Lexeme :=
  [.mark .comma].intercalate (names.map fun name => [.word name])

theorem commaWords_cons_cons (name next : String) (names : List String) :
    commaWords (name :: next :: names) = .word name :: .mark .comma :: commaWords (next :: names) :=
  List.intercalate_cons_cons

theorem words_of_readWords {what : String} {ts : List Token} {r : Read Token (List String) ts}
    (h : readWords what ts = .ok r) :
    r.value ≠ [] ∧ comma? r.rest = none ∧ Spells (commaWords r.value) ts r.rest := by
  unfold readWords at h
  obtain ⟨⟨name, rest, hlt⟩, hname, h⟩ := Outcome.bind_eq_ok.1 h
  have hs := (gives_expectWord what).1 ⟨hlt, hname⟩
  dsimp only at h
  split at h
  · next u rest' hlt' hcomma =>
      obtain ⟨r', hr, h⟩ := Outcome.bind_eq_ok.1 h
      cases h
      have : rest'.length < ts.length := Nat.lt_trans hlt' hlt
      obtain ⟨hne, hnone, hs'⟩ := words_of_readWords hr
      refine ⟨List.cons_ne_nil _ _, hnone, ?_⟩
      obtain ⟨next, names, hcons⟩ := List.exists_cons_of_ne_nil hne
      have hlexemes : commaWords (name :: r'.value) =
          [.word name] ++ ([.mark .comma] ++ commaWords r'.value) := by
        rw [hcons, commaWords_cons_cons]
        rfl
      simp only [Read.value_after, Read.value_map, Read.rest_after, Read.rest_map, hlexemes]
      exact hs.append ((spells_of_comma? hcomma).append hs')
  · next hnone =>
      cases h
      exact ⟨List.cons_ne_nil _ _, hnone, hs⟩
termination_by ts.length

theorem gives_readWords (what : String) : ∀ {names : List String} {ts : List Token}, names ≠ [] →
    comma? rest = none → Spells (commaWords names) ts rest → Gives (readWords what ts) names rest
  | [name], ts, _, hnone, hs => by
      obtain ⟨hlt, hname⟩ := (gives_expectWord what).2 hs
      rw [readWords]
      simp only [hname, hnone, Outcome.ok_bind]
      exact ⟨hlt, rfl⟩
  | name :: next :: names, ts, _, hnone, hs => by
      rw [commaWords_cons_cons] at hs
      obtain ⟨mid, hname, hs⟩ := hs.uncons
      obtain ⟨mid', hcomma, hs⟩ := hs.uncons
      obtain ⟨_, hname⟩ := (gives_expectWord what).2 hname
      obtain ⟨_, hcomma⟩ := comma?_of_spells hcomma
      obtain ⟨_, hread⟩ := gives_readWords what (List.cons_ne_nil next names) hnone hs
      rw [readWords]
      simp only [hname, hcomma, hread, Outcome.ok_bind]
      exact ⟨_, rfl⟩

theorem gives_readEntity {verb : Verb} {entity : String} :
    Gives (readEntity verb ts) entity rest ↔ Spells [.word entity] ts rest := by
  cases ts with
  | nil =>
      constructor
      · rintro ⟨hlt, h⟩
        cases h
      · rintro ⟨source, ts', h, -⟩
        cases h
  | cons t ts => exact gives_expectWord "entity name"

theorem gives_readSource {verb : Verb} {entity : String} :
    Gives (readSource verb ts) entity rest ↔ Spells [.word "from", .word entity] ts rest := by
  unfold readSource
  constructor
  · rintro ⟨hlt, h⟩
    split at h
    · cases h
    · obtain ⟨⟨u, mid, hlt'⟩, hfrom, h⟩ := Outcome.bind_eq_ok.1 h
      obtain ⟨⟨name, rest', hlt''⟩, hentity, h⟩ := Outcome.bind_eq_ok.1 h
      cases h
      have hs := gives_expectKeyword.1 ⟨hlt', hfrom⟩
      exact hs.append (gives_readEntity.1 ⟨hlt'', hentity⟩)
  · intro hs
    have hne : ts ≠ [] := by
      rintro rfl
      obtain ⟨source, ts', h, -⟩ := hs
      cases h
    obtain ⟨mid, hfrom, hs⟩ := hs.uncons
    obtain ⟨_, hfrom⟩ := gives_expectKeyword.2 hfrom
    obtain ⟨_, hentity⟩ := (@gives_readEntity mid rest verb entity).2 hs
    rw [if_neg hne]
    simp only [hfrom, hentity, Outcome.ok_bind]
    exact ⟨_, rfl⟩

theorem gives_readCount (clause : String) {n : UInt64} :
    Gives (readCount clause ts) n rest ↔
      ∃ i : Int64, 0 ≤ i.toInt ∧ n = UInt64.ofNat i.toInt.toNat ∧ Spells [.int i] ts rest := by
  unfold readCount
  split
  · next i source ts' =>
      split
      · next hi =>
          rw [gives_one]
          constructor
          · rintro ⟨rfl, rfl⟩
            exact ⟨i, hi, rfl, source, _, rfl, rfl⟩
          · rintro ⟨j, -, rfl, source', ts'', h, rfl⟩
            cases h
            exact ⟨rfl, rfl⟩
      · next hi =>
          refine iff_of_false not_gives_error ?_
          rintro ⟨j, hj, -, source', ts'', h, -⟩
          cases h
          exact hi hj
  · next hts =>
      refine iff_of_false not_gives_error ?_
      rintro ⟨i, -, -, source, ts', rfl, -⟩
      exact hts i source ts' rfl

theorem exists_spells_skipKeyword (keyword : String) (ts : List Token) :
    ∃ ls, Spells ls ts (skipKeyword keyword ts).rest := by
  cases h : (skipKeyword keyword ts).value with
  | true => exact ⟨_, spells_of_skipKeyword h⟩
  | false => exact ⟨[], (skipKeyword_rest_of_false h).symm⟩

theorem exists_spells_readDirection (ts : List Token) :
    ∃ ls, Spells ls ts (readDirection ts).rest := by
  have hdesc := exists_spells_skipKeyword "desc" ts
  have hasc := exists_spells_skipKeyword "asc" ts
  unfold readDirection
  split
  · next heq =>
      rw [heq] at hdesc
      exact hdesc
  · next heq =>
      rw [heq] at hasc
      exact hasc

def Undirected (ts : List Token) : Prop :=
  ∀ (d : Direction) (rest : List Token), ¬ Spells [.word d.keyword] ts rest

theorem undirected_of_mark {m : Mark} {ls : List Lexeme} (h : Spells (.mark m :: ls) ts rest) :
    Undirected ts := by
  obtain ⟨source, ts, rfl, -⟩ := h
  rintro d rest ⟨source', ts', h, -⟩
  cases h

/-- A sort field as it may be written: its direction may be left out. -/
structure SortField where
  name : String
  direction : Option Direction
  deriving DecidableEq, Repr

namespace SortField

def key (s : SortField) : SortKey := ⟨s.name, s.direction.getD .ascending⟩

def ofKey (s : SortKey) : SortField := ⟨s.name, some s.direction⟩

def directionWords (s : SortField) : List Lexeme := s.direction.toList.map fun d => .word d.keyword

def lexemes (s : SortField) : List Lexeme := .word s.name :: s.directionWords

def text (s : SortField) : String :=
  match s.direction with
  | none => s.name
  | some d => s.name ++ " " ++ d.keyword

end SortField

theorem readDirection_of_spells {s : SortField} (hs : Spells s.directionWords ts rest)
    (hend : Undirected rest) : ∃ hle, readDirection ts = ⟨s.key.direction, rest, hle⟩ := by
  obtain ⟨name, direction⟩ := s
  cases direction with
  | none =>
      cases hs
      have hdesc : skipKeyword "desc" ts = .nothing false ts :=
        skipKeyword_of_not_spells (hend .descending)
      have hasc : skipKeyword "asc" ts = .nothing false ts :=
        skipKeyword_of_not_spells (hend .ascending)
      unfold readDirection
      rw [hdesc, hasc]
      exact ⟨Nat.le_refl _, rfl⟩
  | some d =>
      obtain ⟨source, ts, rfl, rfl⟩ := hs
      cases d <;> exact ⟨Nat.le_succ _, rfl⟩

def sortWords (s : SortKey) : List Lexeme := [.word s.name, .word s.direction.keyword]

def commaSorts (sorts : List SortKey) : List Lexeme :=
  [.mark .comma].intercalate (sorts.map sortWords)

def commaFields (ss : List SortField) : List Lexeme :=
  [.mark .comma].intercalate (ss.map SortField.lexemes)

theorem commaFields_cons_cons (s next : SortField) (ss : List SortField) :
    commaFields (s :: next :: ss) =
      .word s.name :: (s.directionWords ++ .mark .comma :: commaFields (next :: ss)) := by
  have h := @List.intercalate_cons_cons _ [.mark .comma] s.lexemes next.lexemes
    (ss.map SortField.lexemes)
  rw [List.append_assoc] at h
  exact h

theorem commaFields_singleton (s : SortField) : commaFields [s] = s.lexemes :=
  List.intercalate_singleton

theorem commaSorts_eq (sorts : List SortKey) :
    commaSorts sorts = commaFields (sorts.map SortField.ofKey) := by
  rw [commaSorts, commaFields, List.map_map]
  rfl

theorem names_of_readSorts {ts : List Token} {r : Read Token (List SortKey) ts}
    (h : readSorts ts = .ok r) :
    ∃ ls, Spells ls ts r.rest ∧ ∀ s ∈ r.value, .word s.name ∈ ls := by
  unfold readSorts at h
  obtain ⟨⟨name, rest, hlt⟩, hname, h⟩ := Outcome.bind_eq_ok.1 h
  have hs := (gives_expectWord "sort field").1 ⟨hlt, hname⟩
  obtain ⟨ls, hs'⟩ := exists_spells_readDirection rest
  dsimp only at h
  split at h
  · next u rest' hlt' hcomma =>
      obtain ⟨r', hr, h⟩ := Outcome.bind_eq_ok.1 h
      cases h
      have : rest'.length < ts.length :=
        Nat.lt_trans (Nat.lt_of_lt_of_le hlt' (readDirection rest).noLonger) hlt
      obtain ⟨ls', hs'', hmore⟩ := names_of_readSorts hr
      refine ⟨_, hs.append (hs'.append ((spells_of_comma? hcomma).append hs'')), ?_⟩
      simp only [Read.value_after, Read.value_within, Read.value_map]
      refine List.forall_mem_cons.2 ⟨by simp, fun s hmem => ?_⟩
      simp [hmore s hmem]
  · cases h
    exact ⟨_, hs.append hs', by simp [Partly.after]⟩
termination_by ts.length

theorem gives_readSorts : ∀ {ss : List SortField} {ts : List Token}, ss ≠ [] →
    comma? rest = none → Undirected rest → Spells (commaFields ss) ts rest →
      Gives (readSorts ts) (ss.map SortField.key) rest
  | [s], ts, _, hnone, hend, hs => by
      rw [commaFields_singleton] at hs
      obtain ⟨mid, hname, hs⟩ := hs.uncons
      obtain ⟨_, hname⟩ := (gives_expectWord "sort field").2 hname
      obtain ⟨_, hdirection⟩ := readDirection_of_spells hs hend
      have hnone' : comma? (readDirection mid).rest = none := by rwa [hdirection]
      rw [readSorts]
      simp only [hname, hnone', hdirection, Outcome.ok_bind]
      exact ⟨_, rfl⟩
  | s :: next :: ss, ts, _, hnone, hend, hs => by
      rw [commaFields_cons_cons] at hs
      obtain ⟨mid₁, hname, hs⟩ := hs.uncons
      obtain ⟨mid₂, hdirection, hs⟩ := hs.split
      have hmark := undirected_of_mark hs
      obtain ⟨mid₃, hcomma, hs⟩ := hs.uncons
      obtain ⟨_, hname⟩ := (gives_expectWord "sort field").2 hname
      obtain ⟨_, hdirection⟩ := readDirection_of_spells hdirection hmark
      have hrest : (readDirection mid₁).rest = mid₂ := by rw [hdirection]
      rw [← hrest] at hcomma
      obtain ⟨_, hcomma⟩ := comma?_of_spells hcomma
      obtain ⟨_, hread⟩ := gives_readSorts (List.cons_ne_nil next ss) hnone hend hs
      rw [readSorts]
      simp only [hname, hcomma, hread, hdirection, Outcome.ok_bind]
      exact ⟨_, rfl⟩

section Window

variable {w : Window} {sorts : List SortKey} {ss : List SortField} {skip limit : Option UInt64}

def countBound : Nat := 0x8000000000000000

theorem gives_readCount_ofNat (clause : String) {n : UInt64} (hn : n.toNat < countBound)
    (hs : Spells [.int (Int64.ofNat n.toNat)] ts rest) : Gives (readCount clause ts) n rest := by
  have htoInt : (Int64.ofNat n.toNat).toInt = n.toNat := Int64.toInt_ofNat_of_lt hn
  refine (gives_readCount clause).2 ⟨_, by omega, ?_, hs⟩
  rw [htoInt, Int.toNat_natCast, UInt64.ofNat_toNat]

def orderWords (sorts : List SortKey) : List Lexeme :=
  if sorts = [] then [] else .word "order" :: .word "by" :: commaSorts sorts

def countWords (clause : String) (n : UInt64) : List Lexeme :=
  if n = 0 then [] else [.word clause, .int (Int64.ofNat n.toNat)]

def orderLexemes (ss : List SortField) : List Lexeme :=
  if ss = [] then [] else .word "order" :: .word "by" :: commaFields ss

def countLexemes (clause : String) : Option UInt64 → List Lexeme
  | none => []
  | some n => [.word clause, .int (Int64.ofNat n.toNat)]

def windowLexemes (ss : List SortField) (skip limit : Option UInt64) : List Lexeme :=
  orderLexemes ss ++ (countLexemes "skip" skip ++ countLexemes "limit" limit)

def given (n : UInt64) : Option UInt64 := if n = 0 then none else some n

theorem getD_given (n : UInt64) : (given n).getD 0 = n := by
  unfold given
  split
  · next hzero => exact hzero.symm
  · rfl

theorem orderWords_eq (sorts : List SortKey) :
    orderWords sorts = orderLexemes (sorts.map SortField.ofKey) := by
  rw [orderWords, orderLexemes, commaSorts_eq]
  simp only [List.map_eq_nil_iff]

theorem countWords_eq (clause : String) (n : UInt64) :
    countWords clause n = countLexemes clause (given n) := by
  unfold countWords given
  split <;> rfl

def givenSorts (ss : List SortField) : Option (List SortKey) :=
  if ss = [] then none else some (ss.map SortField.key)

theorem getD_givenSorts (ss : List SortField) : (givenSorts ss).getD [] = ss.map SortField.key := by
  unfold givenSorts
  split
  · next hnil =>
      rw [hnil]
      rfl
  · rfl

theorem readWindow_nil (w : Window) : readWindow w [] = .ok w := by
  rw [readWindow]

theorem readWindow_order (hs : Spells (orderLexemes ss) ts rest) (hnone : comma? rest = none)
    (hend : Undirected rest) (hw : w.sorts = none) :
    readWindow w ts = readWindow { w with sorts := givenSorts ss } rest := by
  unfold orderLexemes at hs
  unfold givenSorts
  split at hs
  · next hnil =>
      cases hs
      rw [if_pos hnil, ← hw]
  · next hne =>
      obtain ⟨source, mid, rfl, hs⟩ := hs
      obtain ⟨mid', hby, hs⟩ := Spells.uncons hs
      obtain ⟨_, hby⟩ := gives_expectKeyword.2 hby
      obtain ⟨_, hread⟩ := gives_readSorts hne hnone hend hs
      rw [readWindow, if_neg hne]
      simp only [if_true, hw, Option.isSome_none, Bool.false_eq_true, if_false, hby, hread,
        Outcome.ok_bind]

theorem readWindow_skip (hs : Spells (countLexemes "skip" skip) ts rest)
    (hskip : ∀ n ∈ skip, n.toNat < countBound) (hw : w.skip = none) :
    readWindow w ts = readWindow { w with skip := skip } rest := by
  cases skip with
  | none =>
      cases hs
      rw [← hw]
  | some n =>
      obtain ⟨source, mid, rfl, hs⟩ := hs
      obtain ⟨_, hread⟩ := gives_readCount_ofNat "skip" (hskip n rfl) hs
      rw [readWindow, if_neg (by decide)]
      simp only [if_true, hw, Option.isSome_none, Bool.false_eq_true, if_false, hread,
        Outcome.ok_bind]

theorem readWindow_limit (hs : Spells (countLexemes "limit" limit) ts rest)
    (hlimit : ∀ n ∈ limit, n.toNat < countBound) (hw : w.limit = none) :
    readWindow w ts = readWindow { w with limit := limit } rest := by
  cases limit with
  | none =>
      cases hs
      rw [← hw]
  | some n =>
      obtain ⟨source, mid, rfl, hs⟩ := hs
      obtain ⟨_, hread⟩ := gives_readCount_ofNat "limit" (hlimit n rfl) hs
      rw [readWindow, if_neg (by decide), if_neg (by decide)]
      simp only [if_true, hw, Option.isSome_none, Bool.false_eq_true, if_false, hread,
        Outcome.ok_bind]

def Trails (ls : List Lexeme) : Prop :=
  ∀ l ∈ ls.head?, ∃ clause ∈ ["order", "skip", "limit"], l = .word clause

theorem Trails.append {ls ls' : List Lexeme} (h : Trails ls) (h' : Trails ls') :
    Trails (ls ++ ls') := by
  cases ls with
  | nil => exact h'
  | cons l ls => exact h

theorem trails_orderLexemes (ss : List SortField) : Trails (orderLexemes ss) := by
  unfold orderLexemes Trails
  split <;> simp

theorem trails_countLexemes {clause : String} (h : clause ∈ ["order", "skip", "limit"])
    (n : Option UInt64) : Trails (countLexemes clause n) := by
  unfold countLexemes Trails
  split
  · simp
  · simpa using h

theorem trails_counts (skip limit : Option UInt64) :
    Trails (countLexemes "skip" skip ++ countLexemes "limit" limit) :=
  (trails_countLexemes (by simp) skip).append (trails_countLexemes (by simp) limit)

theorem trails_windowLexemes (ss : List SortField) (skip limit : Option UInt64) :
    Trails (windowLexemes ss skip limit) :=
  (trails_orderLexemes ss).append (trails_counts skip limit)

theorem trails_nil : Trails [] := by simp [Trails]

/-- What stands behind ends whatever could go on before it. -/
structure Stops (ts : List Token) : Prop where
  comma : comma? ts = none
  connective : connective? ts = none
  noWhere : ∀ rest, ¬ Spells [.word "where"] ts rest
  undirected : Undirected ts

theorem Trails.stops {ls : List Lexeme} (h : Trails ls) (hs : Spells ls ts []) : Stops ts := by
  cases ls with
  | nil =>
      cases hs
      refine ⟨rfl, rfl, ?_, ?_⟩
      · rintro rest ⟨source, ts, hnil, -⟩
        cases hnil
      · rintro d rest ⟨source, ts, hnil, -⟩
        cases hnil
  | cons l ls =>
      obtain ⟨source, ts, rfl, -⟩ := hs
      obtain ⟨clause, hclause, rfl⟩ := h l rfl
      simp only [List.mem_cons, List.not_mem_nil, or_false] at hclause
      rcases hclause with rfl | rfl | rfl <;>
        refine ⟨rfl, rfl, fun rest ⟨_, _, hcons, _⟩ => by simp at hcons, ?_⟩ <;>
        rintro d rest ⟨_, _, hcons, _⟩ <;> cases d <;> simp [Direction.keyword] at hcons

theorem readWindow_of_spells (hskip : ∀ n ∈ skip, n.toNat < countBound)
    (hlimit : ∀ n ∈ limit, n.toNat < countBound) (hs : Spells (windowLexemes ss skip limit) ts []) :
    readWindow ⟨none, none, none⟩ ts = .ok ⟨givenSorts ss, skip, limit⟩ := by
  -- each clause finds its place in the window still empty, so none counts as a second one
  obtain ⟨mid, horder, hs⟩ := hs.split
  have hstops := (trails_counts skip limit).stops hs
  obtain ⟨mid', hs, hend⟩ := hs.split
  rw [readWindow_order horder hstops.comma hstops.undirected rfl, readWindow_skip hs hskip rfl,
    readWindow_limit hend hlimit rfl, readWindow_nil]

end Window

end RecordQuery.Written
