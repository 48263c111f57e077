import RecordQuery.Proofs.Statement.Head

namespace RecordQuery

open Token (IsWord Spells Breaks)

namespace Written

abbrev Count := { n : UInt64 // n.toNat < countBound }

theorem Count.forall_mem (n : Count) : ∀ m ∈ some n.val, m.toNat < countBound := by
  rintro m ⟨⟩
  exact n.2

inductive Trailer where
  | order (first : SortField) (more : List SortField)
  | skip (n : Count)
  | limit (n : Count)

inductive TrailerKind where
  | order
  | skip
  | limit
  deriving DecidableEq, Repr

namespace TrailerKind

def keyword : TrailerKind → String
  | .order => "order"
  | .skip => "skip"
  | .limit => "limit"

def title : TrailerKind → String
  | .order => "order by"
  | .skip => "skip"
  | .limit => "limit"

end TrailerKind

namespace Trailer

def kind : Trailer → TrailerKind
  | .order _ _ => .order
  | .skip _ => .skip
  | .limit _ => .limit

def sorts : Trailer → List SortField
  | .order first more => first :: more
  | .skip _ | .limit _ => []

def lexemes : Trailer → List Lexeme
  | .order first more => orderLexemes (first :: more)
  | .skip n => countLexemes "skip" (some n)
  | .limit n => countLexemes "limit" (some n)

def text : Trailer → String
  | .order first more => orderText (first :: more)
  | .skip n => numberText "skip" (some n)
  | .limit n => numberText "limit" (some n)

theorem exists_lexemes (c : Trailer) : ∃ ls, c.lexemes = .word c.kind.keyword :: ls := by
  cases c with
  | order first more =>
      rw [lexemes, orderLexemes, if_neg (List.cons_ne_nil first more)]
      exact ⟨_, rfl⟩
  | skip n | limit n => exact ⟨_, rfl⟩

theorem clausal {c : Trailer} (h : ∀ s ∈ c.sorts, IsWord s.name) :
    Clausal c.lexemes c.text.toList := by
  cases c with
  | order first more => exact clausal_order h
  | skip n | limit n => exact clausal_count _ (by decide) (Count.forall_mem n)

end Trailer

section Window

variable {w : Window} {k : TrailerKind} {c : Trailer} {cs : List Trailer} {ls : List Lexeme}
  {ts rest : List Token}

namespace Window

def has (w : Window) : TrailerKind → Bool
  | .order => w.sorts.isSome
  | .skip => w.skip.isSome
  | .limit => w.limit.isSome

def put (w : Window) : Trailer → Window
  | .order first more => { w with sorts := givenSorts (first :: more) }
  | .skip n => { w with skip := some n }
  | .limit n => { w with limit := some n }

theorem has_none (k : TrailerKind) : has ⟨none, none, none⟩ k = false := by
  cases k <;> rfl

theorem has_put (w : Window) (c : Trailer) (k : TrailerKind) :
    (w.put c).has k = (decide (c.kind = k) || w.has k) := by
  cases c <;> cases k <;> rfl

theorem has_foldl_put (w : Window) (k : TrailerKind) (cs : List Trailer) :
    (cs.foldl put w).has k = (decide (k ∈ cs.map Trailer.kind) || w.has k) := by
  induction cs generalizing w with
  | nil => rfl
  | cons c cs ih =>
      rw [List.foldl_cons, ih, has_put]
      simp only [List.map_cons, List.mem_cons, Bool.decide_or, eq_comm, Bool.or_left_comm,
        Bool.or_assoc]

theorem put_comm {c d : Trailer} (h : c.kind ≠ d.kind) (w : Window) :
    (w.put c).put d = (w.put d).put c := by
  cases c <;> cases d <;> first | rfl | exact absurd rfl h

theorem foldl_put_perm {ds : List Trailer} (h : cs.Perm ds) (hcs : (cs.map Trailer.kind).Nodup)
    (w : Window) : cs.foldl put w = ds.foldl put w := by
  refine h.foldl_eq' ?_ w
  intro c hc d hd w
  by_cases hkind : c.kind = d.kind
  · rw [List.inj_on_of_nodup_map hcs hc hd hkind]
  · exact put_comm hkind w

end Window

theorem readWindow_put (hs : Spells c.lexemes ts rest) (hend : Stops rest)
    (hw : w.has c.kind = false) : readWindow w ts = readWindow (w.put c) rest := by
  have eq_none {α : Type} {o : Option α} (h : o.isSome = false) : o = none :=
    Option.isNone_iff_eq_none.1 (Option.isSome_eq_false_iff.1 h)
  cases c with
  | order first more =>
      exact readWindow_order hs hend.comma hend.undirected (eq_none hw)
  | skip n => exact readWindow_skip hs (Count.forall_mem n) (eq_none hw)
  | limit n => exact readWindow_limit hs (Count.forall_mem n) (eq_none hw)

theorem readWindow_again (hs : Spells [.word k.keyword] ts rest) (hw : w.has k = true) :
    readWindow w ts = .error ((Fault.duplicate k.title).at ts) := by
  obtain ⟨source, ts, rfl, -⟩ := hs
  rw [readWindow]
  cases k <;> simp only [Window.has] at hw <;> simp [TrailerKind.keyword, TrailerKind.title, hw]

theorem trails_lexemes (cs : List Trailer) (h : Trails ls) :
    Trails (cs.flatMap Trailer.lexemes ++ ls) := by
  cases cs with
  | nil => exact h
  | cons c cs =>
      obtain ⟨ls', hls'⟩ := c.exists_lexemes
      rw [List.flatMap_cons, hls']
      rintro l ⟨⟩
      refine ⟨c.kind.keyword, ?_, rfl⟩
      cases c.kind <;> decide

theorem trails_clauses (cs : List Trailer) : Trails (cs.flatMap Trailer.lexemes) := by
  simpa using trails_lexemes cs trails_nil

theorem readWindow_foldl (hls : Trails ls)
    (hs : Spells (cs.flatMap Trailer.lexemes ++ ls) ts []) (hcs : (cs.map Trailer.kind).Nodup)
    (hw : ∀ c ∈ cs, w.has c.kind = false) :
    ∃ rest, Spells ls rest [] ∧ readWindow w ts = readWindow (cs.foldl Window.put w) rest := by
  induction cs generalizing w ts with
  | nil => exact ⟨ts, hs, rfl⟩
  | cons c cs ih =>
      rw [List.flatMap_cons, List.append_assoc] at hs
      obtain ⟨mid, hc, hs⟩ := hs.split
      obtain ⟨hfresh, hcs⟩ := List.nodup_cons.1 hcs
      rw [List.forall_mem_cons] at hw
      have hmore : ∀ d ∈ cs, (w.put c).has d.kind = false := by
        intro d hd
        have hne : c.kind ≠ d.kind := fun heq => hfresh (heq ▸ List.mem_map_of_mem hd)
        rw [Window.has_put, hw.2 d hd, decide_eq_false hne]
        rfl
      obtain ⟨rest, hrest, hread⟩ := ih hs hcs hmore
      exact ⟨rest, hrest, (readWindow_put hc ((trails_lexemes cs hls).stops hs) hw.1).trans hread⟩

theorem exists_repeated (h : ¬ (cs.map Trailer.kind).Nodup) :
    ∃ before c after, cs = before ++ c :: after ∧ (before.map Trailer.kind).Nodup ∧
      c.kind ∈ before.map Trailer.kind := by
  induction cs using List.reverseRecOn with
  | nil => exact absurd List.nodup_nil h
  | append_singleton cs c ih =>
      by_cases hcs : (cs.map Trailer.kind).Nodup
      · refine ⟨cs, c, [], rfl, hcs, ?_⟩
        rw [List.map_append, List.map_singleton, ← List.concat_eq_append, List.nodup_concat] at h
        exact not_not.1 fun hc => h ⟨hc, hcs⟩
      · obtain ⟨before, d, after, rfl, hbefore, hd⟩ := ih hcs
        exact ⟨before, d, after ++ [c], by simp, hbefore, hd⟩

end Window

/-- Clauses to put behind a selection; without sort fields it has no `order by`. -/
structure Trailing where
  sorts : List SortField
  skip : Option Count
  limit : Option Count

namespace Trailing

def clauses : Trailing → List Trailer
  | ⟨sorts, skip, limit⟩ =>
      (match sorts with
        | [] => []
        | first :: more => [Trailer.order first more]) ++
      (skip.map Trailer.skip).toList ++ (limit.map Trailer.limit).toList

def behind (given : Trailing) (field : String → String) (s : Selection) : Selection :=
  { s with
    sorts := given.sorts.map fun f => ⟨field f.name, f.direction.getD .ascending⟩
    skip := (given.skip.map Subtype.val).getD 0
    limit := (given.limit.map Subtype.val).getD 0 }

theorem nodup_kinds (given : Trailing) : (given.clauses.map Trailer.kind).Nodup := by
  obtain ⟨sorts, skip, limit⟩ := given
  cases sorts <;> cases skip <;> cases limit <;> simp [clauses, Trailer.kind]

theorem foldl_put_clauses (given : Trailing) :
    given.clauses.foldl Window.put ⟨none, none, none⟩ =
      ⟨givenSorts given.sorts, given.skip.map Subtype.val, given.limit.map Subtype.val⟩ := by
  obtain ⟨sorts, skip, limit⟩ := given
  cases sorts <;> cases skip <;> cases limit <;> rfl

end Trailing

/-- The text may stand behind a word, and is split into the lexemes of the clauses. -/
structure Arranges (cs : List Trailer) (tail : String) : Prop where
  apart : Breaks tail.toList
  split : ∃ ts, Token.ofChars tail.toList = .ok ts ∧
    ts.map Token.lexeme = cs.flatMap Trailer.lexemes

theorem arranges_join (cs : List Trailer) (h : ∀ c ∈ cs, ∀ s ∈ c.sorts, IsWord s.name) :
    Arranges cs (String.join (cs.map Trailer.text)) := by
  have hclausal : Clausal (cs.flatMap Trailer.lexemes)
      (String.join (cs.map Trailer.text)).toList := by
    induction cs with
    | nil => exact clausal_nil
    | cons c cs ih =>
        rw [List.forall_mem_cons] at h
        rw [List.flatMap_cons, List.map_cons, String.join_cons, String.toList_append]
        exact (Trailer.clausal h.1).append (ih h.2)
  obtain ⟨hwrites, hbreaks⟩ := hclausal
  obtain ⟨ts, hts, hs⟩ := hwrites.eof
  exact ⟨hbreaks, ts, hts, by simpa using hs.map_lexeme⟩

variable {limits : Limits} {head tail : String} {q : Select Clause} {cs : List Trailer}

theorem Head.ofText_arranged (h : Head limits head q) (htail : Arranges cs tail) :
    ∃ ts, Spells (cs.flatMap Trailer.lexemes) ts [] ∧ ofText limits (head ++ tail) =
      (readWindow ⟨none, none, none⟩ ts).map (within q) := by
  obtain ⟨hb, ts, hts, hlexemes⟩ := htail
  obtain ⟨rest, hs, hrest⟩ := Spells.of_map_lexeme (hlexemes.trans (List.append_nil _).symm)
  obtain rfl := List.map_eq_nil_iff.1 hrest
  exact ⟨ts, hs, h.ofText_append hb hts ((trails_clauses cs).stops hs)⟩

theorem Head.ofText_of_nodup (h : Head limits head q) (htail : Arranges cs tail)
    (hcs : (cs.map Trailer.kind).Nodup) : ofText limits (head ++ tail) =
      .ok (within q (cs.foldl Window.put ⟨none, none, none⟩)) := by
  obtain ⟨ts, hs, htext⟩ := h.ofText_arranged htail
  rw [← List.append_nil (cs.flatMap _)] at hs
  obtain ⟨rest, hrest, hread⟩ := readWindow_foldl trails_nil hs hcs
    fun c _ => Window.has_none c.kind
  cases hrest
  rw [htext, hread, readWindow_nil]
  rfl

theorem Head.ofText_of_repeated {before after : List Trailer} {c : Trailer}
    (h : Head limits head q) (htail : Arranges (before ++ c :: after) tail)
    (hbefore : (before.map Trailer.kind).Nodup) (hc : c.kind ∈ before.map Trailer.kind) :
    ∃ fragment, ofText limits (head ++ tail) =
      .error (.malformed (.duplicate c.kind.title) fragment) := by
  obtain ⟨ts, hs, htext⟩ := h.ofText_arranged htail
  rw [List.flatMap_append] at hs
  obtain ⟨rest, hrest, hread⟩ := readWindow_foldl (trails_clauses (c :: after)) hs hbefore
    fun c _ => Window.has_none c.kind
  obtain ⟨ls, hls⟩ := c.exists_lexemes
  rw [List.flatMap_cons, hls] at hrest
  obtain ⟨mid, hkeyword, -⟩ := Spells.uncons hrest
  have hhas : (before.foldl Window.put ⟨none, none, none⟩).has c.kind = true := by
    rw [Window.has_foldl_put, decide_eq_true hc]
    rfl
  rw [htext, hread, readWindow_again hkeyword hhas]
  exact ⟨_, rfl⟩

end Written

namespace Query

open Written

variable {limits : Limits} {head : String} {q : Select Clause}

/-- Behind a selection, its clauses for sorting, skipping and limiting come in any order, and any of
them may be missing: every arrangement is read as the same statement. A clause that comes a second
time is an error, which names the first clause to do so. -/
theorem clauses_in_any_order (h : Head limits head q) (naming : Naming) :
    ∃ (s : Selection) (params : Params),
      (s.sorts = [] ∧ s.skip = 0 ∧ s.limit = 0 ∧
        parse limits naming head = .ok ⟨.select s, params⟩) ∧
      (∀ (given : Trailing) (cs : List Trailer) (tail : String), cs.Perm given.clauses →
        Arranges cs tail → parse limits naming (head ++ tail) =
          .ok ⟨.select (given.behind (naming.field q.entity) s), params⟩) ∧
      ∀ (cs : List Trailer) (tail : String), ¬ (cs.map Trailer.kind).Nodup → Arranges cs tail →
        ∃ before c after fragment, cs = before ++ c :: after ∧
          (before.map Trailer.kind).Nodup ∧ c.kind ∈ before.map Trailer.kind ∧
          parse limits naming (head ++ tail) =
            .error (.malformed (.duplicate c.kind.title) fragment) := by
  obtain ⟨s, params, hsorts, hskip, hlimit, hwithin⟩ := exists_ofWritten_within h naming
  have hread (given : Trailing) (cs : List Trailer) (tail : String) (hperm : cs.Perm given.clauses)
      (htail : Arranges cs tail) : parse limits naming (head ++ tail) =
        .ok ⟨.select (given.behind (naming.field q.entity) s), params⟩ := by
    have hnodup : (cs.map Trailer.kind).Nodup :=
      (hperm.map Trailer.kind).nodup_iff.2 given.nodup_kinds
    rw [parse_of_ofText (h.ofText_of_nodup htail hnodup), Window.foldl_put_perm hperm hnodup,
      given.foldl_put_clauses, hwithin, getD_givenSorts, List.map_map]
    rfl
  refine ⟨s, params, ⟨hsorts, hskip, hlimit, ?_⟩, hread, fun cs tail hnodup htail => ?_⟩
  · have hnone := hread ⟨[], none, none⟩ [] "" .nil (arranges_join [] (List.forall_mem_nil _))
    rw [String.append_empty] at hnone
    rw [hnone]
    cases s
    subst hsorts hskip hlimit
    rfl
  · obtain ⟨before, c, after, rfl, hbefore, hc⟩ := exists_repeated hnodup
    obtain ⟨fragment, htext⟩ := h.ofText_of_repeated htail hbefore hc
    exact ⟨before, c, after, fragment, rfl, hbefore, hc, parse_of_ofText_error htext naming⟩

def unsorted : Selection :=
  ⟨"order", ["limit"], some (.compare .equal ⟨"skip", .param "by"⟩), [], 0, 0⟩

theorem parse_unsorted : parse {} .identity "select limit from order where skip = @by" =
    .ok ⟨.select unsorted, ⟨["by"], []⟩⟩ := by
  unfold unsorted
  cbv

theorem head_unsorted : Head {} "select limit from order where skip = @by"
    ⟨"order", ["limit"], some (.compare "skip" .equal (.param "by")), [], 0, 0⟩ :=
  ⟨by cbv, _, by cbv, by cbv⟩

def rank : Trailer := .order ⟨"skip", some .descending⟩ [⟨"asc", none⟩, ⟨"order", none⟩]

def most : Count := ⟨9_223_372_036_854_775_807, by decide⟩

def ranked : Trailing := ⟨rank.sorts, some most, none⟩

theorem arranged_behind_unsorted :
    (∃ s, s = ({ unsorted with
        sorts := [⟨"skip", .descending⟩, ⟨"asc", .ascending⟩, ⟨"order", .ascending⟩]
        skip := 9_223_372_036_854_775_807 } : Selection) ∧
      parse {} .identity ("select limit from order where skip = @by" ++
        " order by skip desc, asc, order skip 9223372036854775807") =
          .ok ⟨.select s, ⟨["by"], []⟩⟩ ∧
      parse {} .identity ("select limit from order where skip = @by" ++
        " skip 9223372036854775807 order by skip desc, asc, order") =
          .ok ⟨.select s, ⟨["by"], []⟩⟩) ∧
    ∃ title fragment, parse {} .identity ("select limit from order where skip = @by" ++
      " skip 9223372036854775807 order by skip desc, asc, order skip 9223372036854775807") =
        .error (.malformed (.duplicate title) fragment) := by
  obtain ⟨s, params, ⟨-, -, -, hbare⟩, hread, hagain⟩ :=
    clauses_in_any_order head_unsorted .identity
  rw [parse_unsorted] at hbare
  cases hbare
  -- the texts are those of the clauses one behind the other
  refine ⟨⟨_, rfl, ?_, ?_⟩, ?_⟩
  · exact hread ranked [rank, .skip most] _ (.refl _) (arranges_join _ (by decide))
  · exact hread ranked [.skip most, rank] _ (.swap _ _ _) (arranges_join _ (by decide))
  · obtain ⟨_, c, _, fragment, -, -, -, herror⟩ := hagain [.skip most, rank, .skip most] _
      (by decide) (arranges_join _ (by decide))
    exact ⟨_, fragment, herror⟩

end Query

end RecordQuery
