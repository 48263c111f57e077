import RecordQuery.Proofs.Cursor.Literal

namespace RecordQuery.Cursor

open Written (markComparison? mayNegate checkCount chainOf connective? comma?
  skipKeyword_of_no_keyword)

section Routines

variable (kinds : List (Option Lexeme)) (limits : Limits)

-- each repetition of the loop over the values in parentheses, `count` of them read before
def listed (count : Nat) (start : Cursor) : Step (List Value × Cursor) := do
  let (v, c) ← value kinds limits start
  accept (checkCount limits (count + 1))
  let (more, c) ← eat kinds .comma c
  if more then
    let ⟨c, _⟩ ← onward kinds start c
    let (vs, c) ← listed (count + 1) c
    .ok (v :: vs, c)
  else
    let (_, c) ← expect kinds .closeParen c
    .ok ([v], c)
termination_by kinds.length - start.pos

def members (c : Cursor) : Step (Value × Cursor) := even c do
  let (opened, c) ← eat kinds .openParen c
  if opened then
    let (vs, c) ← listed kinds limits 0 c
    .ok (.list vs, c)
  else
    let (v, c) ← value kinds limits c
    match v with
    | .list items =>
        accept (checkCount limits items.length)
        .ok (.list items, c)
    | .param name => .ok (.param name, c)
    | _ => fail .inValues c

def bounds (c : Cursor) : Step (Value × Cursor) := do
  let (low, c) ← value kinds limits c
  let (_, c) ← expectKeyword kinds "and" c
  let (high, c) ← value kinds limits c
  .ok (.list [low, high], c)

def compared (cmp : Comparison) (c : Cursor) : Step (Value × Cursor) :=
  match cmp with
  | .isIn => members kinds limits c
  | .between => bounds kinds limits c
  | _ => value kinds limits c

def operator (c : Cursor) : Step (Comparison × Cursor) := do
  match ← look kinds c with
  | some (.mark m) =>
      match markComparison? m with
      | some cmp =>
          let c ← advance kinds c
          .ok (cmp, c)
      | none => unexpected kinds "comparison operator" c
  | some (.word word) =>
      if word = "like" then
        let c ← advance kinds c
        .ok (.like, c)
      else if word = "in" then
        let c ← advance kinds c
        .ok (.isIn, c)
      else if word = "between" then
        let c ← advance kinds c
        .ok (.between, c)
      else .error (.refused (.unsupportedOperator word) rfl)
  | _ => unexpected kinds "comparison operator" c

def comparison (c : Cursor) : Step (Clause × Cursor) := even c do
  let (field, c) ← expectWord kinds "field name" c
  let (negated, c) ← eatKeyword kinds "not" c
  let (cmp, c) ← operator kinds c
  let (v, c) ← compared kinds limits cmp c
  if negated && !mayNegate cmp then fail .misplacedNot c
  else .ok (if negated then .not (.compare field cmp v) else .compare field cmp v, c)

def connective (c : Cursor) : Step (Option Connective × Cursor) := do
  let (conjoined, c) ← eatKeyword kinds "and" c
  if conjoined then .ok (some .and, c)
  else
    let (disjoined, c) ← eatKeyword kinds "or" c
    if disjoined then .ok (some .or, c) else .ok (none, c)

mutual

def chain (start : Cursor) : Step (Clause × Cursor) := even start do
  let (first, c) ← term start
  let ⟨c, _⟩ ← onward kinds start c
  let (rest, c) ← links c
  .ok (chainOf first rest, c)
termination_by 3 * (kinds.length - start.pos) + 2

-- each repetition of the loop over the connectives and what they join
def links (start : Cursor) : Step (List (Connective × Clause) × Cursor) := do
  match ← connective kinds start with
  | (none, c) => .ok ([], c)
  | (some joint, c) =>
      let ⟨c, _⟩ ← onward kinds start c
      let (next, c) ← term c
      let ⟨c, _⟩ ← onward kinds start c
      let (rest, c) ← links c
      .ok ((joint, next) :: rest, c)
termination_by 3 * (kinds.length - start.pos) + 0

def term (start : Cursor) : Step (Clause × Cursor) := even start do
  let (negated, c) ← eatKeyword kinds "not" start
  if negated then
    let ⟨c, _⟩ ← onward kinds start c
    deepened limits .condition c fun c' _ => do
      let (inner, c) ← term c'
      .ok (.not inner, c)
  else
    let (opened, c) ← eat kinds .openParen c
    if opened then
      let ⟨c, _⟩ ← onward kinds start c
      deepened limits .condition c fun c' _ => do
        let (group, c) ← chain c'
        let (_, c) ← expect kinds .closeParen c
        .ok (group, c)
    else comparison kinds limits c
termination_by 3 * (kinds.length - start.pos) + 1

end

def condition (c : Cursor) : Step (Option Clause × Cursor) := even c do
  let (found, c) ← eatKeyword kinds "where" c
  if found then
    let (clause, c) ← chain kinds limits c
    .ok (some clause, c)
  else .ok (none, c)

end Routines

variable {limits : Limits} {all ts : List Token} {c : Cursor}

theorem isMalformed_of_checkCount {count : Nat} {e : QueryError}
    (h : checkCount limits count = .error e) : e.isMalformed = false := by
  rw [checkCount] at h
  split at h
  · cases h
    rfl
  · cases h

theorem agrees_listed (count : Nat) {ts : List Token} {c : Cursor} (h : Stands all ts c)
    (hdepth : c.literalDepth = 0) :
    Agrees all readView c (listed (kindsOf all) limits count c)
      (Written.readListed limits count ts) := by
  rw [listed, Written.readListed]
  refine (agrees_value h hdepth).bind ?_
  rintro ⟨v, rest, hlt⟩ c₁ hvalue
  dsimp only [readView] at hvalue ⊢
  refine Agrees.accept (fun _ => isMalformed_of_checkCount) fun _ _ => ?_
  rcases eat_comma_onward h hvalue.stands hlt with
    ⟨r, c₂, hc, hcomma, heat, honward, hnext, hr⟩ | ⟨hcomma, heat⟩
  · simp only [hcomma, heat, honward, Outcome.ok_bind, if_true]
    have hagain : c₂.literalDepth = 0 := by rw [hnext.literalDepth, hvalue.literalDepth, hdepth]
    refine .behind hnext ?_
    exact (agrees_listed (count + 1) hnext.stands hagain).map (fun _ _ => rfl) fun _ => rfl
  · simp only [hcomma, heat, Outcome.ok_bind, Bool.false_eq_true, if_false]
    exact (agrees_expect .closeParen hvalue.stands).map (fun _ _ => rfl) fun _ => rfl
termination_by ts.length

theorem agrees_members (h : Stands all ts c) (hdepth : c.literalDepth = 0) :
    Agrees all readView c (members (kindsOf all) limits c) (Written.readMembers limits ts) := by
  rw [members]
  refine Agrees.even ?_
  rcases Written.mark_or .openParen ts with ⟨source, rest, rfl⟩ | hopen
  · rw [eat_eq_true h]
    refine .behind h.reached_next ?_
    exact (agrees_listed 0 h.next hdepth).bind_map (fun _ _ => rfl) fun _ => rfl
  · rw [Written.readMembers.eq_2 limits ts hopen, eat_eq_false h hopen]
    refine (agrees_value h hdepth).bind ?_
    rintro ⟨v, rest, hlt⟩ c₁ hvalue
    dsimp only [readView] at hvalue ⊢
    cases v with
    | list items =>
        exact Agrees.accept (fun _ => isMalformed_of_checkCount) fun _ _ =>
          agrees_ok (.refl hvalue.stands) rfl
    | param name => exact agrees_ok (.refl hvalue.stands) rfl
    | _ => exact agrees_fail .inValues hvalue.stands

theorem agrees_bounds (h : Stands all ts c) (hdepth : c.literalDepth = 0) :
    Agrees all readView c (bounds (kindsOf all) limits c) (Written.readBounds limits ts) := by
  refine (agrees_value h hdepth).bind ?_
  rintro ⟨low, rest₁, hlt₁⟩ c₁ hlow
  refine (agrees_expectKeyword "and" hlow.stands).bind ?_
  rintro ⟨_, rest₂, hlt₂⟩ c₂ hand
  have hdepth₂ : c₂.literalDepth = 0 := by rw [hand.literalDepth, hlow.literalDepth, hdepth]
  exact (agrees_value hand.stands hdepth₂).map (fun _ _ => rfl) fun _ => rfl

theorem agrees_compared (cmp : Comparison) (h : Stands all ts c) (hdepth : c.literalDepth = 0) :
    Agrees all readView c (compared (kindsOf all) limits cmp c)
      (Written.readOperand limits cmp ts) := by
  cases cmp with
  | isIn => exact agrees_members h hdepth
  | between => exact agrees_bounds h hdepth
  | equal | greater | greaterEqual | less | lessEqual | like => exact agrees_value h hdepth

theorem agrees_operator (h : Stands all ts c) :
    Agrees all readView c (operator (kindsOf all) c) (Written.readComparison ts) := by
  rw [operator, look_eq h]
  match ts with
  | ⟨.mark m, source⟩ :: rest =>
      simp only [List.head?_cons, Option.map_some, Outcome.ok_bind, Written.readComparison]
      cases markComparison? m with
      | some cmp =>
          simp only [advance_eq h, Outcome.ok_bind]
          exact agrees_ok h.reached_next rfl
      | none => exact agrees_unexpected _ h
  | ⟨.word word, source⟩ :: rest =>
      simp only [List.head?_cons, Option.map_some, Outcome.ok_bind, Written.readComparison,
        advance_eq h]
      refine Agrees.ite (fun _ => agrees_ok h.reached_next rfl) fun _ => ?_
      refine Agrees.ite (fun _ => agrees_ok h.reached_next rfl) fun _ => ?_
      exact Agrees.ite (fun _ => agrees_ok h.reached_next rfl) fun _ => agrees_refused rfl
  | [] | ⟨.string _, _⟩ :: _ | ⟨.int _, _⟩ :: _ | ⟨.decimal _, _⟩ :: _ | ⟨.param _, _⟩ :: _ =>
      exact agrees_unexpected _ h

theorem agrees_comparison (h : Stands all ts c) (hdepth : c.literalDepth = 0) :
    Agrees all readView c (comparison (kindsOf all) limits c)
      (Written.readCompare limits ts) := by
  refine Agrees.even ?_
  refine (agrees_expectWord "field name" h).bind ?_
  rintro ⟨field, rest₁, hlt₁⟩ c₁ hfield
  obtain ⟨c₂, heat, hnot⟩ := agrees_eatKeyword "not" hfield.stands
  dsimp only [readView] at hfield heat hnot ⊢
  simp only [heat, Outcome.ok_bind]
  refine .behind hnot ?_
  generalize Written.skipKeyword "not" rest₁ = p at hnot ⊢
  obtain ⟨negated, rest₂, hle₂⟩ := p
  dsimp only [partlyView] at hnot ⊢
  refine (agrees_operator hnot.stands).bind ?_
  rintro ⟨cmp, rest₃, hlt₃⟩ c₃ hoperator
  have hdepth₃ : c₃.literalDepth = 0 := by
    rw [hoperator.literalDepth, hnot.literalDepth, hfield.literalDepth, hdepth]
  refine (agrees_compared cmp hoperator.stands hdepth₃).bind ?_
  rintro operand c₄ hcompared
  refine Agrees.ite (fun _ => agrees_fail .misplacedNot hcompared.stands) fun _ => ?_
  refine agrees_ok (.refl hcompared.stands) ?_
  cases negated <;> rfl

theorem connective_eq (h : Stands all ts c) :
    (∃ r c', connective? ts = some r ∧ connective (kindsOf all) c = .ok (some r.value, c') ∧
      Reached all c r.rest c') ∨
    (connective? ts = none ∧ connective (kindsOf all) c = .ok (none, c)) := by
  rw [connective]
  rcases keyword_or "and" ts with ⟨source, rest, rfl⟩ | hand
  · rw [eatKeyword_eq_true h]
    exact .inl ⟨_, _, rfl, rfl, h.reached_next⟩
  · simp only [eatKeyword_eq_false h hand, Outcome.ok_bind, Bool.false_eq_true, if_false]
    rcases keyword_or "or" ts with ⟨source, rest, rfl⟩ | hor
    · rw [eatKeyword_eq_true h]
      exact .inl ⟨_, _, rfl, rfl, h.reached_next⟩
    · rw [eatKeyword_eq_false h hor]
      refine .inr ⟨?_, rfl⟩
      unfold connective?
      split
      · next word source rest =>
          have hword : word ≠ "and" ∧ word ≠ "or" := by
            constructor
            · rintro rfl
              exact hand source rest rfl
            · rintro rfl
              exact hor source rest rfl
          rw [if_neg hword.1, if_neg hword.2]
      · rfl

mutual

theorem agrees_chain {ts : List Token} {c : Cursor} {depth : Nat} (h : Stands all ts c)
    (hdepth : c.depth = depth) (hliteral : c.literalDepth = 0) :
    Agrees all (fun r => (chainOf r.value.1 r.value.2, r.rest)) c (chain (kindsOf all) limits c)
      (Written.readChain limits depth ts) := by
  rw [chain, Written.readChain]
  refine Agrees.even ?_
  refine (agrees_term h hdepth hliteral).bind ?_
  rintro ⟨first, rest, hlt⟩ c₁ hterm
  dsimp only [readView] at hterm ⊢
  obtain ⟨hc, honward⟩ := onward_eq h hterm.stands hlt
  simp only [honward, Outcome.ok_bind]
  rcases connective_eq hterm.stands with ⟨r, c₂, hconnective, -, -⟩ | ⟨hconnective, hnone⟩
  · have hdepth₁ : c₁.depth = depth := by rw [hterm.depth, hdepth]
    have hliteral₁ : c₁.literalDepth = 0 := by rw [hterm.literalDepth, hliteral]
    simp only [hconnective]
    exact (agrees_links hterm.stands hdepth₁ hliteral₁ r hconnective).map (fun _ _ => rfl)
      fun _ => rfl
  · rw [links]
    simp only [hconnective, hnone, Outcome.ok_bind]
    exact agrees_ok (.refl hterm.stands) rfl
termination_by (ts.length, 1)

theorem agrees_links {ts : List Token} {c : Cursor} {depth : Nat} (h : Stands all ts c)
    (hdepth : c.depth = depth) (hliteral : c.literalDepth = 0) (r : Read Token Connective ts)
    (hconnective : connective? ts = some r) :
    Agrees all (fun q => ((r.value, q.value.1) :: q.value.2, q.rest)) c
      (links (kindsOf all) limits c) (Written.readChain limits depth r.rest) := by
  rcases connective_eq h with ⟨r', c₁, hr', hfound, hreached⟩ | ⟨hnone, -⟩
  · obtain rfl : r' = r := Option.some.inj (hr'.symm.trans hconnective)
    have := r'.shorter
    have hdepth₁ : c₁.depth = depth := by rw [hreached.depth, hdepth]
    have hliteral₁ : c₁.literalDepth = 0 := by rw [hreached.literalDepth, hliteral]
    obtain ⟨hc₁, honward₁⟩ := onward_eq h hreached.stands r'.shorter
    rw [links, Written.readChain]
    simp only [hfound, honward₁, Outcome.ok_bind]
    refine .behind hreached ?_
    refine (agrees_term hreached.stands hdepth₁ hliteral₁).bind ?_
    rintro ⟨next, rest, hlt⟩ c₂ hterm
    dsimp only [readView] at hterm ⊢
    have hdepth₂ : c₂.depth = depth := by rw [hterm.depth, hdepth₁]
    have hliteral₂ : c₂.literalDepth = 0 := by rw [hterm.literalDepth, hliteral₁]
    have hrest : rest.length < ts.length := Nat.lt_trans hlt r'.shorter
    obtain ⟨hc₂, honward₂⟩ := onward_eq h hterm.stands hrest
    simp only [honward₂, Outcome.ok_bind]
    rcases connective_eq hterm.stands with ⟨q, -, hmore, -, -⟩ | ⟨hmore, hdone⟩
    · simp only [hmore]
      exact (agrees_links hterm.stands hdepth₂ hliteral₂ q hmore).map (fun _ _ => rfl)
        fun _ => rfl
    · rw [links]
      simp only [hmore, hdone, Outcome.ok_bind]
      exact agrees_ok (.refl hterm.stands) rfl
  · rw [hnone] at hconnective
    cases hconnective
termination_by (ts.length, 0)

theorem agrees_term {ts : List Token} {c : Cursor} {depth : Nat} (h : Stands all ts c)
    (hdepth : c.depth = depth) (hliteral : c.literalDepth = 0) :
    Agrees all readView c (term (kindsOf all) limits c) (Written.readTerm limits depth ts) := by
  subst hdepth
  rw [term, Written.readTerm.eq_def]
  refine Agrees.even ?_
  match ts with
  | ⟨.word word, source⟩ :: rest =>
      by_cases hword : word = "not"
      · subst hword
        obtain ⟨_, honward⟩ := onward_eq h h.next (Nat.lt_succ_self _)
        rw [eatKeyword_eq_true h]
        simp only [Outcome.ok_bind, if_true, honward]
        refine .behind h.reached_next ?_
        have hdeep := h.next.withLevel .condition (c.depth + 1)
        exact agrees_deepened ((agrees_term hdeep rfl hliteral).map (fun _ _ => rfl) fun _ => rfl)
      · have hnot : eatKeyword (kindsOf all) "not" c = .ok (false, c) := by
          refine eatKeyword_eq_false h fun source' rest' heq => ?_
          cases heq
          exact hword rfl
        have hopen : eat (kindsOf all) .openParen c = .ok (false, c) := eat_eq_false h nofun
        simp only [hnot, hopen, hword, Outcome.ok_bind, Bool.false_eq_true, if_false]
        exact agrees_comparison h hliteral
  | ⟨.mark m, source⟩ :: rest =>
      have hnot : eatKeyword (kindsOf all) "not" c = .ok (false, c) := eatKeyword_eq_false h nofun
      simp only [hnot, Outcome.ok_bind, Bool.false_eq_true, if_false]
      cases m with
      | openParen =>
          obtain ⟨_, honward⟩ := onward_eq h h.next (Nat.lt_succ_self _)
          simp only [eat_eq_true h, Outcome.ok_bind, if_true, honward]
          refine .behind h.reached_next ?_
          have hdeep := h.next.withLevel .condition (c.depth + 1)
          refine agrees_deepened ((agrees_chain hdeep rfl hliteral).bind ?_)
          rintro ⟨⟨first, more⟩, rest₁, hlt₁⟩ c₁ hchain
          exact (agrees_expect .closeParen hchain.stands).map (fun _ _ => rfl) fun _ => rfl
      | _ =>
          have hopen : eat (kindsOf all) .openParen c = .ok (false, c) := eat_eq_false h nofun
          simp only [hopen, Outcome.ok_bind, Bool.false_eq_true, if_false]
          exact agrees_comparison h hliteral
  | [] | ⟨.string _, _⟩ :: _ | ⟨.int _, _⟩ :: _ | ⟨.decimal _, _⟩ :: _ | ⟨.param _, _⟩ :: _ =>
      have hnot : eatKeyword (kindsOf all) "not" c = .ok (false, c) := eatKeyword_eq_false h nofun
      have hopen : eat (kindsOf all) .openParen c = .ok (false, c) := eat_eq_false h nofun
      simp only [hnot, hopen, Outcome.ok_bind, Bool.false_eq_true, if_false]
      exact agrees_comparison h hliteral
termination_by (ts.length, 0)

end

theorem agrees_clause (h : Stands all ts c) (hdepth : c.depth = 0) (hliteral : c.literalDepth = 0) :
    Agrees all readView c (chain (kindsOf all) limits c) (Written.readClause limits ts) :=
  (agrees_chain h hdepth hliteral).mapped fun _ => rfl

theorem agrees_condition (h : Stands all ts c) (hdepth : c.depth = 0)
    (hliteral : c.literalDepth = 0) :
    Agrees all partlyView c (condition (kindsOf all) limits c) (Written.readWhere limits ts) := by
  rw [condition, Written.readWhere]
  refine Agrees.even ?_
  rcases keyword_or "where" ts with ⟨source, rest, rfl⟩ | hts
  · rw [eatKeyword_eq_true h, skipKeyword_self]
    refine .behind h.reached_next ?_
    exact (agrees_clause h.next hdepth hliteral).bind_map (fun _ _ => rfl) fun _ => rfl
  · rw [eatKeyword_eq_false h hts, skipKeyword_of_no_keyword hts]
    exact agrees_ok (.refl h) rfl

end RecordQuery.Cursor
