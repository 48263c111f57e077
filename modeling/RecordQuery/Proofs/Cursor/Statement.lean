import RecordQuery.Proofs.Cursor.Clause

namespace RecordQuery.Cursor

open Written (Window comma? skipKeyword_of_no_keyword)

section Routines

variable (kinds : List (Option Lexeme)) (limits : Limits)

def entity (verb : Verb) (c : Cursor) : Step (String × Cursor) := do
  match ← look kinds c with
  | none => .error (.refused (.missingEntity verb) rfl)
  | some _ => expectWord kinds "entity name" c

def count (clause : String) (c : Cursor) : Step (UInt64 × Cursor) := do
  match ← look kinds c with
  | some (.int i) =>
      if 0 ≤ i.toInt then
        let c ← advance kinds c
        .ok (UInt64.ofNat i.toInt.toNat, c)
      else fail (.negative clause) c
  | _ => unexpected kinds ("number after '" ++ clause ++ "'") c

-- each repetition of the loop over the commas and the names behind them
def moreWords (what : String) (start : Cursor) : Step (List String × Cursor) := do
  let (more, c) ← eat kinds .comma start
  if more then
    let (name, c) ← expectWord kinds what c
    let ⟨c, _⟩ ← onward kinds start c
    let (names, c) ← moreWords what c
    .ok (name :: names, c)
  else .ok ([], c)
termination_by kinds.length - start.pos

def words (what : String) (c : Cursor) : Step (List String × Cursor) := do
  let (name, c) ← expectWord kinds what c
  let (names, c) ← moreWords kinds what c
  .ok (name :: names, c)

def direction (c : Cursor) : Step (Direction × Cursor) := do
  let (falling, c) ← eatKeyword kinds "desc" c
  if falling then .ok (.descending, c)
  else
    let (_, c) ← eatKeyword kinds "asc" c
    .ok (.ascending, c)

def sortKeys (start : Cursor) : Step (List SortKey × Cursor) := do
  let (name, c) ← expectWord kinds "sort field" start
  let (toward, c) ← direction kinds c
  let (more, c) ← eat kinds .comma c
  if more then
    let ⟨c, _⟩ ← onward kinds start c
    let (sorts, c) ← sortKeys c
    .ok (⟨name, toward⟩ :: sorts, c)
  else .ok ([⟨name, toward⟩], c)
termination_by kinds.length - start.pos

def window (w : Window) (start : Cursor) : Step (Window × Cursor) := do
  let atOrder ← standsAt kinds "order" start
  let atSkip ← standsAt kinds "skip" start
  let atLimit ← standsAt kinds "limit" start
  if atOrder then
    if w.sorts.isSome then fail (.duplicate "order by") start
    else
      let c ← advance kinds start
      let (_, c) ← expectKeyword kinds "by" c
      let (sorts, c) ← sortKeys kinds c
      let ⟨c, _⟩ ← onward kinds start c
      window { w with sorts := some sorts } c
  else if atSkip then
    if w.skip.isSome then fail (.duplicate "skip") start
    else
      let c ← advance kinds start
      let (n, c) ← count kinds "skip" c
      let ⟨c, _⟩ ← onward kinds start c
      window { w with skip := some n } c
  else if atLimit then
    if w.limit.isSome then fail (.duplicate "limit") start
    else
      let c ← advance kinds start
      let (n, c) ← count kinds "limit" c
      let ⟨c, _⟩ ← onward kinds start c
      window { w with limit := some n } c
  else
    let (_, c) ← expectEnd kinds start
    .ok (w, c)
termination_by kinds.length - start.pos

def origin (verb : Verb) (c : Cursor) : Step (String × Cursor) := do
  match ← look kinds c with
  | none => .error (.refused (.missingEntity verb) rfl)
  | some _ =>
      let (_, c) ← expectKeyword kinds "from" c
      entity kinds verb c

def projection (c : Cursor) : Step (List String × Cursor) := do
  let (starred, c) ← eat kinds .star c
  if starred then .ok ([], c) else words kinds "field name" c

def select (c : Cursor) : Step (Written × Cursor) := do
  let (_, c) ← expectKeyword kinds "select" c
  let (fields, c) ← projection kinds c
  let (entity, c) ← origin kinds .select c
  let (condition, c) ← condition kinds limits c
  let (w, c) ← window kinds ⟨none, none, none⟩ c
  .ok (.select ⟨entity, fields, condition, w.sorts.getD [], w.limit.getD 0, w.skip.getD 0⟩, c)

def removed (c : Cursor) : Step (List String × Cursor) := do
  let atFrom ← standsAt kinds "from" c
  if atFrom then .ok ([], c)
  else
    match ← look kinds c with
    | none => .error (.refused (.missingEntity .delete) rfl)
    | some _ => words kinds "field name" c

def delete (c : Cursor) : Step (Written × Cursor) := do
  let (_, c) ← expectKeyword kinds "delete" c
  let (fields, c) ← removed kinds c
  let (entity, c) ← origin kinds .delete c
  let (condition, c) ← condition kinds limits c
  let (_, c) ← expectEnd kinds c
  .ok (.delete ⟨entity, fields, condition⟩, c)

def assignments (start : Cursor) : Step (List Column × Cursor) := do
  let (name, c) ← expectWord kinds "field name" start
  let (_, c) ← expect kinds .equal c
  let (v, c) ← value kinds limits c
  let (more, c) ← eat kinds .comma c
  if more then
    let ⟨c, _⟩ ← onward kinds start c
    let (columns, c) ← assignments c
    .ok (⟨name, v⟩ :: columns, c)
  else
    let (_, c) ← expect kinds .closeParen c
    .ok ([⟨name, v⟩], c)
termination_by kinds.length - start.pos

def payload (c : Cursor) : Step (List Column × Cursor) := even c do
  let (v, c) ← braces kinds limits c
  match v with
  | .document columns => .ok (columns, c)
  | _ => fail .payload c

def body (c : Cursor) : Step (List Column × Cursor) := even c do
  match ← look kinds c with
  | some (.mark .openBrace) => payload kinds limits c
  | some (.mark .openParen) =>
      let k ← lookBehind kinds c
      let c ← advance kinds c
      if k = some (.mark .openBrace) then
        let (columns, c) ← payload kinds limits c
        let (_, c) ← expect kinds .closeParen c
        .ok (columns, c)
      else assignments kinds limits c
  | _ => unexpected kinds "'(' or '\x7b'" c

def ttl (c : Cursor) : Step (Ttl × Cursor) := do
  let (amount, c) ← count kinds "ttl" c
  let (unit, c) ← expectWord kinds "ttl unit" c
  match TimeUnit.ofName? unit with
  | none => fail (.ttlUnit unit) c
  | some u =>
      match Ttl.ofAmount? amount.toNat u with
      | none => fail .ttlOverflow c
      | some t => .ok (t, c)

def lastTtl (c : Cursor) : Step (Option Ttl × Cursor) := do
  match ← look kinds c with
  | none => .ok (none, c)
  | some _ =>
      let (t, c) ← ttl kinds c
      .ok (some t, c)

def insert (c : Cursor) : Step (Written × Cursor) := do
  let (_, c) ← expectKeyword kinds "insert" c
  let (entity, c) ← entity kinds .insert c
  let (columns, c) ← body kinds limits c
  let (ttl, c) ← lastTtl kinds c
  let (_, c) ← expectEnd kinds c
  .ok (.insert ⟨entity, columns⟩ ttl, c)

def update (c : Cursor) : Step (Written × Cursor) := do
  let (_, c) ← expectKeyword kinds "update" c
  let (entity, c) ← entity kinds .update c
  let (columns, c) ← body kinds limits c
  let (_, c) ← expectEnd kinds c
  .ok (.update ⟨entity, columns⟩, c)

def statement (verb : Verb) (c : Cursor) : Step (Written × Cursor) := even c <|
  match verb with
  | .select => select kinds limits c
  | .delete => delete kinds limits c
  | .insert => insert kinds limits c
  | .update => update kinds limits c

-- a text that holds a single value
def single (c : Cursor) : Step (Value × Cursor) := even c do
  let (v, c) ← value kinds limits c
  let (_, c) ← expectEnd kinds c
  .ok (v, c)

end Routines

variable {limits : Limits} {all ts : List Token} {c : Cursor}

theorem agrees_entity (verb : Verb) (h : Stands all ts c) :
    Agrees all readView c (entity (kindsOf all) verb c) (Written.readEntity verb ts) := by
  rw [entity, look_eq h]
  cases ts with
  | nil => exact agrees_refused rfl
  | cons t ts => exact agrees_expectWord "entity name" h

theorem agrees_count (clause : String) (h : Stands all ts c) :
    Agrees all readView c (count (kindsOf all) clause c) (Written.readCount clause ts) := by
  rw [count, look_eq h]
  match ts with
  | ⟨.int i, source⟩ :: rest =>
      simp only [List.head?_cons, Option.map_some, Outcome.ok_bind, advance_eq h,
        Written.readCount]
      exact Agrees.ite (fun _ => agrees_ok h.reached_next rfl) fun _ => agrees_fail _ h
  | [] | ⟨.string _, _⟩ :: _ | ⟨.word _, _⟩ :: _ | ⟨.decimal _, _⟩ :: _ | ⟨.param _, _⟩ :: _
  | ⟨.mark _, _⟩ :: _ => exact agrees_unexpected _ h

theorem moreWords_eq_nil (what : String) (h : Stands all ts c) (hcomma : comma? ts = none) :
    moreWords (kindsOf all) what c = .ok ([], c) := by
  rcases eat_comma h with ⟨r, c', hr, -, -⟩ | ⟨-, heat⟩
  · rw [hr] at hcomma
    cases hcomma
  · rw [moreWords, heat]
    rfl

theorem agrees_moreWords (what : String) {ts : List Token} {c : Cursor} (h : Stands all ts c)
    (r : Read Token Unit ts) (hcomma : comma? ts = some r) :
    Agrees all readView c (moreWords (kindsOf all) what c) (Written.readWords what r.rest) := by
  rcases eat_comma h with ⟨r', c₁, hr', heat, hreached⟩ | ⟨hnone, -⟩
  · obtain rfl : r' = r := Option.some.inj (hr'.symm.trans hcomma)
    rw [moreWords, Written.readWords]
    simp only [heat, Outcome.ok_bind, if_true]
    refine .behind hreached ?_
    refine (agrees_expectWord what hreached.stands).bind ?_
    rintro ⟨name, rest, hlt⟩ c₂ hname
    dsimp only [readView] at hname ⊢
    have hrest : rest.length < ts.length := Nat.lt_trans hlt r'.shorter
    obtain ⟨hc, honward⟩ := onward_eq h hname.stands hrest
    simp only [honward, Outcome.ok_bind]
    cases hmore : comma? rest with
    | some q =>
        exact (agrees_moreWords what hname.stands q hmore).map (fun _ _ => rfl) fun _ => rfl
    | none =>
        simp only [moreWords_eq_nil what hname.stands hmore, Outcome.ok_bind]
        exact agrees_ok (.refl hname.stands) rfl
  · rw [hnone] at hcomma
    cases hcomma
termination_by ts.length

theorem agrees_words (what : String) (h : Stands all ts c) :
    Agrees all readView c (words (kindsOf all) what c) (Written.readWords what ts) := by
  rw [words, Written.readWords]
  refine (agrees_expectWord what h).bind ?_
  rintro ⟨name, rest, hlt⟩ c₁ hname
  dsimp only [readView] at hname ⊢
  cases hmore : comma? rest with
  | some q =>
      exact (agrees_moreWords what hname.stands q hmore).map (fun _ _ => rfl) fun _ => rfl
  | none =>
      simp only [moreWords_eq_nil what hname.stands hmore, Outcome.ok_bind]
      exact agrees_ok (.refl hname.stands) rfl

theorem agrees_direction (h : Stands all ts c) :
    Agrees all partlyView c (direction (kindsOf all) c) (.ok (Written.readDirection ts)) := by
  rw [direction, Written.readDirection]
  rcases keyword_or "desc" ts with ⟨source, rest, rfl⟩ | hdesc
  · rw [eatKeyword_eq_true h, skipKeyword_self]
    exact agrees_ok h.reached_next rfl
  · obtain ⟨c', heat, hreached⟩ := agrees_eatKeyword "asc" h
    simp only [eatKeyword_eq_false h hdesc, heat, Outcome.ok_bind, Bool.false_eq_true, if_false,
      skipKeyword_of_no_keyword hdesc]
    exact agrees_ok hreached rfl

theorem agrees_sortKeys {ts : List Token} {c : Cursor} (h : Stands all ts c) :
    Agrees all readView c (sortKeys (kindsOf all) c) (Written.readSorts ts) := by
  rw [sortKeys, Written.readSorts]
  refine (agrees_expectWord "sort field" h).bind ?_
  rintro ⟨name, rest₁, hlt₁⟩ c₁ hname
  obtain ⟨c₂, htoward, hdirection⟩ := agrees_direction hname.stands
  dsimp only [readView] at hname htoward hdirection ⊢
  simp only [htoward, Outcome.ok_bind]
  refine .behind hdirection ?_
  generalize Written.readDirection rest₁ = p at hdirection ⊢
  obtain ⟨toward, rest₂, hle₂⟩ := p
  dsimp only [partlyView] at hdirection ⊢
  have hlt : rest₂.length < ts.length := Nat.lt_of_le_of_lt hle₂ hlt₁
  rcases eat_comma_onward h hdirection.stands hlt with
    ⟨r, c₃, hc, hcomma, heat, honward, hnext, hr⟩ | ⟨hcomma, heat⟩
  · simp only [hcomma, heat, honward, Outcome.ok_bind, if_true]
    exact .behind hnext ((agrees_sortKeys hnext.stands).map (fun _ _ => rfl) fun _ => rfl)
  · simp only [hcomma, heat, Outcome.ok_bind, Bool.false_eq_true, if_false]
    exact agrees_ok (.refl hdirection.stands) rfl
termination_by ts.length

-- what is read up to the end leaves nothing
def toEnd {α : Type} (a : α) : α × List Token := (a, [])

theorem standsAt_word {keyword name : String} {source : List Char} {rest : List Token}
    (h : Stands all (⟨.word name, source⟩ :: rest) c) :
    standsAt (kindsOf all) keyword c = .ok (name = keyword) := by
  rw [standsAt, look_eq h]
  rfl

-- a clause that is a keyword and a number, and what is read behind it
theorem agrees_counted {β π : Type} {view : π → β × List Token} {t : Token} (clause : String)
    (h : Stands all (t :: ts) c) {k : UInt64 → Cursor → Step (β × Cursor)}
    {f : Read Token UInt64 ts → Outcome π}
    (hk : ∀ r c', Stands all r.rest c' → Agrees all view c' (k r.value c') (f r)) :
    Agrees all view c (do
      let behind ← advance (kindsOf all) c
      let counted ← count (kindsOf all) clause behind
      let next ← onward (kindsOf all) c counted.2
      k counted.1 next.1) (Written.readCount clause ts >>= f) := by
  rw [advance_eq h, Outcome.ok_bind]
  refine .behind h.reached_next ?_
  refine (agrees_count clause h.next).bind ?_
  intro r c₁ hcount
  dsimp only [readView] at hcount ⊢
  obtain ⟨_, honward⟩ := onward_eq h hcount.stands (Nat.lt_succ_of_lt r.shorter)
  simp only [honward, Outcome.ok_bind]
  exact hk r c₁ hcount.stands

theorem agrees_window (w : Window) {ts : List Token} {c : Cursor} (h : Stands all ts c) :
    Agrees all toEnd c (window (kindsOf all) w c) (Written.readWindow w ts) := by
  rw [window, Written.readWindow.eq_def]
  match ts with
  | ⟨.word word, source⟩ :: rest =>
      simp only [standsAt_word h, Outcome.ok_bind, decide_eq_true_eq]
      refine Agrees.ite (fun _ => ?_) fun _ => Agrees.ite (fun _ => ?_) fun _ =>
        Agrees.ite (fun _ => ?_) fun _ => ?_
      · refine Agrees.ite (fun _ => agrees_fail _ h) fun _ => ?_
        rw [advance_eq h, Outcome.ok_bind]
        refine .behind h.reached_next ?_
        refine (agrees_expectKeyword "by" h.next).bind ?_
        rintro ⟨_, rest₁, hlt₁⟩ c₁ hby
        refine (agrees_sortKeys hby.stands).bind ?_
        rintro ⟨sorts, rest₂, hlt₂⟩ c₂ hsorts
        dsimp only [readView] at hsorts ⊢
        have hlt : rest₂.length < rest.length + 1 :=
          Nat.lt_succ_of_lt (Nat.lt_trans hlt₂ hlt₁)
        obtain ⟨_, honward⟩ := onward_eq h hsorts.stands hlt
        simp only [honward, Outcome.ok_bind]
        exact agrees_window _ hsorts.stands
      · refine Agrees.ite (fun _ => agrees_fail _ h) fun _ => ?_
        refine agrees_counted "skip" h (k := fun n c => window _ { w with skip := some n } c) ?_
        rintro ⟨n, rest₁, _⟩ c₁ hstands
        exact agrees_window _ hstands
      · refine Agrees.ite (fun _ => agrees_fail _ h) fun _ => ?_
        refine agrees_counted "limit" h (k := fun n c => window _ { w with limit := some n } c) ?_
        rintro ⟨n, rest₁, _⟩ c₁ hstands
        exact agrees_window _ hstands
      · exact (agrees_expectEnd h).map (fun _ _ => rfl) fun _ => rfl
  | [] | ⟨.string _, _⟩ :: _ | ⟨.int _, _⟩ :: _ | ⟨.decimal _, _⟩ :: _ | ⟨.param _, _⟩ :: _
  | ⟨.mark _, _⟩ :: _ =>
      have hno : ∀ keyword, standsAt (kindsOf all) keyword c = .ok false :=
        fun keyword => standsAt_eq keyword h
      simp only [hno, Outcome.ok_bind, Bool.false_eq_true, if_false]
      exact (agrees_expectEnd h).map (f := fun _ => w) (fun _ _ => rfl) fun _ => rfl
termination_by ts.length

theorem agrees_origin (verb : Verb) (h : Stands all ts c) :
    Agrees all readView c (origin (kindsOf all) verb c) (Written.readSource verb ts) := by
  rw [origin, look_eq h, Written.readSource]
  cases ts with
  | nil => exact agrees_refused rfl
  | cons t ts =>
      rw [if_neg (List.cons_ne_nil t ts)]
      refine (agrees_expectKeyword "from" h).bind ?_
      rintro ⟨_, rest, hlt⟩ c₁ hfrom
      exact (agrees_entity verb hfrom.stands).wrap fun _ => rfl

theorem agrees_projection (h : Stands all ts c) :
    Agrees all readView c (projection (kindsOf all) c) (Written.readProjection ts) := by
  rw [projection]
  rcases Written.mark_or .star ts with ⟨source, rest, rfl⟩ | hstar
  · rw [eat_eq_true h]
    exact agrees_ok h.reached_next rfl
  · rw [eat_eq_false h hstar, Written.readProjection.eq_2 ts hstar]
    exact agrees_words "field name" h

theorem agrees_select (h : Stands all ts c) (hdepth : c.depth = 0) (hliteral : c.literalDepth = 0) :
    Agrees all toEnd c (select (kindsOf all) limits c) (Written.readSelect limits ts) := by
  refine (agrees_expectKeyword "select" h).bind ?_
  rintro ⟨_, rest₁, hlt₁⟩ c₁ hselect
  refine (agrees_projection hselect.stands).bind ?_
  rintro ⟨fields, rest₂, hlt₂⟩ c₂ hprojection
  refine (agrees_origin .select hprojection.stands).bind ?_
  rintro ⟨entity, rest₃, hlt₃⟩ c₃ horigin
  have hreached := (hselect.trans hprojection).trans horigin
  have hdepth₃ : c₃.depth = 0 := hreached.depth.trans hdepth
  have hliteral₃ : c₃.literalDepth = 0 := hreached.literalDepth.trans hliteral
  refine (agrees_condition horigin.stands hdepth₃ hliteral₃).bind ?_
  rintro ⟨condition, rest₄, hle₄⟩ c₄ hcondition
  exact (agrees_window _ hcondition.stands).map (fun _ _ => rfl) fun _ => rfl

theorem agrees_removed {t : Token} (h : Stands all (t :: ts) c) :
    Agrees all partlyView c (removed (kindsOf all) c) (Written.readRemoved (t :: ts)) := by
  rw [removed, standsAt_eq "from" h, look_eq h, Written.readRemoved]
  cases (Written.skipKeyword "from" (t :: ts)).value with
  | true =>
      rw [if_pos (.inr rfl)]
      exact agrees_ok (.refl h) rfl
  | false =>
      rw [if_neg (by simp)]
      exact (agrees_words "field name" h).mapped fun _ => rfl

theorem agrees_delete (h : Stands all ts c) (hdepth : c.depth = 0) (hliteral : c.literalDepth = 0) :
    Agrees all toEnd c (delete (kindsOf all) limits c) (Written.readDelete limits ts) := by
  refine (agrees_expectKeyword "delete" h).bind ?_
  rintro ⟨_, rest₁, hlt₁⟩ c₁ hdelete
  dsimp only [readView] at hdelete ⊢
  cases rest₁ with
  | nil =>
      have hremoved :
          removed (kindsOf all) c₁ = .error (.refused (.missingEntity .delete) rfl) := by
        simp only [removed, standsAt, look_eq hdelete.stands]
        rfl
      rw [hremoved]
      exact agrees_refused rfl
  | cons t rest₁ =>
      refine (agrees_removed hdelete.stands).bind ?_
      rintro ⟨fields, rest₂, hle₂⟩ c₂ hremoved
      refine (agrees_origin .delete hremoved.stands).bind ?_
      rintro ⟨entity, rest₃, hlt₃⟩ c₃ horigin
      have hreached := (hdelete.trans hremoved).trans horigin
      have hdepth₃ : c₃.depth = 0 := hreached.depth.trans hdepth
      have hliteral₃ : c₃.literalDepth = 0 := hreached.literalDepth.trans hliteral
      refine (agrees_condition horigin.stands hdepth₃ hliteral₃).bind ?_
      rintro ⟨condition, rest₄, hle₄⟩ c₄ hcondition
      refine (agrees_expectEnd hcondition.stands).bind ?_
      intro _ c₅ hend
      exact agrees_ok (.refl hend.stands) rfl

theorem agrees_assignments {ts : List Token} {c : Cursor} (h : Stands all ts c)
    (hliteral : c.literalDepth = 0) :
    Agrees all readView c (assignments (kindsOf all) limits c)
      (Written.readAssignments limits ts) := by
  rw [assignments, Written.readAssignments]
  refine (agrees_expectWord "field name" h).bind ?_
  rintro ⟨name, rest₁, hlt₁⟩ c₁ hname
  refine (agrees_expect .equal hname.stands).bind ?_
  rintro ⟨_, rest₂, hlt₂⟩ c₂ hequal
  have hliteral₂ : c₂.literalDepth = 0 := by
    rw [hequal.literalDepth, hname.literalDepth, hliteral]
  refine (agrees_value hequal.stands hliteral₂).bind ?_
  rintro ⟨v, rest₃, hlt₃⟩ c₃ hvalue
  dsimp only [readView] at hvalue ⊢
  have hlt : rest₃.length < ts.length := Nat.lt_trans hlt₃ (Nat.lt_trans hlt₂ hlt₁)
  rcases eat_comma_onward h hvalue.stands hlt with
    ⟨r, c₄, hc, hcomma, heat, honward, hnext, hr⟩ | ⟨hcomma, heat⟩
  · simp only [hcomma, heat, honward, Outcome.ok_bind, if_true]
    have hliteral₄ : c₄.literalDepth = 0 := by
      rw [hnext.literalDepth, hvalue.literalDepth, hliteral₂]
    refine .behind hnext ?_
    exact (agrees_assignments hnext.stands hliteral₄).map (fun _ _ => rfl) fun _ => rfl
  · simp only [hcomma, heat, Outcome.ok_bind, Bool.false_eq_true, if_false]
    exact (agrees_expect .closeParen hvalue.stands).map (fun _ _ => rfl) fun _ => rfl
termination_by ts.length

theorem agrees_payload {source : List Char} (h : Stands all (⟨.mark .openBrace, source⟩ :: ts) c)
    (hliteral : c.literalDepth = 0) :
    Agrees all readView c (payload (kindsOf all) limits c) (Written.readPayload limits ts) := by
  refine Agrees.even ?_
  refine (agrees_braces h hliteral).bind ?_
  rintro ⟨v, rest, hlt⟩ c₁ hbraces
  dsimp only [readView] at hbraces ⊢
  cases v with
  | document columns => exact agrees_ok (.refl hbraces.stands) rfl
  | _ => exact agrees_fail .payload hbraces.stands

theorem agrees_body (h : Stands all ts c) (hliteral : c.literalDepth = 0) :
    Agrees all readView c (body (kindsOf all) limits c) (Written.readBody limits ts) := by
  rw [body, look_eq h]
  refine Agrees.even ?_
  match ts with
  | [] | ⟨.string _, _⟩ :: _ | ⟨.int _, _⟩ :: _ | ⟨.decimal _, _⟩ :: _ | ⟨.param _, _⟩ :: _
  | ⟨.word _, _⟩ :: _ => exact agrees_unexpected _ h
  | ⟨.mark m, source⟩ :: rest =>
      cases m with
      | openBrace => exact (agrees_payload h hliteral).mapped fun _ => rfl
      | openParen =>
          simp only [List.head?_cons, Option.map_some, Outcome.ok_bind, lookBehind_eq h,
            advance_eq h]
          refine .behind h.reached_next ?_
          rcases Written.mark_or .openBrace rest with ⟨source', rest', rfl⟩ | hopen
          · simp only [List.head?_cons, Option.map_some, if_true]
            refine (agrees_payload h.next hliteral).bind ?_
            rintro ⟨columns, rest₁, hlt₁⟩ c₁ hpayload
            exact (agrees_expect .closeParen hpayload.stands).map (fun _ _ => rfl) fun _ => rfl
          · rw [if_neg (head?_ne_of_no_mark hopen), Written.readBody.eq_3 limits source rest hopen]
            exact (agrees_assignments h.next hliteral).mapped fun _ => rfl
      | _ => exact agrees_unexpected _ h

theorem agrees_ttl (h : Stands all ts c) :
    Agrees all readView c (ttl (kindsOf all) c) (Written.readTtl ts) := by
  refine (agrees_count "ttl" h).bind ?_
  rintro ⟨amount, rest₁, hlt₁⟩ c₁ hcount
  refine (agrees_expectWord "ttl unit" hcount.stands).bind ?_
  rintro ⟨unit, rest₂, hlt₂⟩ c₂ hunit
  dsimp only [readView] at hunit ⊢
  cases TimeUnit.ofName? unit with
  | none => exact agrees_fail _ hunit.stands
  | some u =>
      dsimp only
      cases Ttl.ofAmount? amount.toNat u with
      | none => exact agrees_fail _ hunit.stands
      | some t => exact agrees_ok (.refl hunit.stands) rfl

theorem agrees_insert (h : Stands all ts c) (hliteral : c.literalDepth = 0) :
    Agrees all toEnd c (insert (kindsOf all) limits c) (Written.readInsert limits ts) := by
  refine (agrees_expectKeyword "insert" h).bind ?_
  rintro ⟨_, rest₁, hlt₁⟩ c₁ hinsert
  refine (agrees_entity .insert hinsert.stands).bind ?_
  rintro ⟨entity, rest₂, hlt₂⟩ c₂ hentity
  have hliteral₂ : c₂.literalDepth = 0 := (hinsert.trans hentity).literalDepth.trans hliteral
  refine (agrees_body hentity.stands hliteral₂).bind ?_
  rintro ⟨columns, rest₃, hlt₃⟩ c₃ hbody
  dsimp only [readView] at hbody ⊢
  cases rest₃ with
  | nil =>
      have hlast : lastTtl (kindsOf all) c₃ = .ok (none, c₃) := by
        rw [lastTtl, look_eq hbody.stands]
        rfl
      have hend : expectEnd (kindsOf all) c₃ = .ok ((), c₃) := by
        rw [expectEnd, look_eq hbody.stands]
        rfl
      simp only [hlast, hend, Outcome.ok_bind]
      exact agrees_ok (.refl hbody.stands) rfl
  | cons t rest₃ =>
      rw [Written.readLastTtl, if_neg (List.cons_ne_nil t rest₃)]
      simp only [lastTtl, look_eq hbody.stands, List.head?_cons, Option.map_some, Outcome.ok_bind,
        bind_assoc]
      refine (agrees_ttl hbody.stands).bind ?_
      rintro ⟨t, rest₄, hlt₄⟩ c₄ httl
      refine (agrees_expectEnd httl.stands).bind ?_
      intro _ c₅ hend
      exact agrees_ok (.refl hend.stands) rfl

theorem agrees_update (h : Stands all ts c) (hliteral : c.literalDepth = 0) :
    Agrees all toEnd c (update (kindsOf all) limits c) (Written.readUpdate limits ts) := by
  refine (agrees_expectKeyword "update" h).bind ?_
  rintro ⟨_, rest₁, hlt₁⟩ c₁ hupdate
  refine (agrees_entity .update hupdate.stands).bind ?_
  rintro ⟨entity, rest₂, hlt₂⟩ c₂ hentity
  have hliteral₂ : c₂.literalDepth = 0 := (hupdate.trans hentity).literalDepth.trans hliteral
  refine (agrees_body hentity.stands hliteral₂).bind ?_
  rintro ⟨columns, rest₃, hlt₃⟩ c₃ hbody
  refine (agrees_expectEnd hbody.stands).bind ?_
  intro _ c₄ hend
  exact agrees_ok (.refl hend.stands) rfl

theorem agrees_statement (verb : Verb) (h : Stands all ts c) (hdepth : c.depth = 0)
    (hliteral : c.literalDepth = 0) :
    Agrees all toEnd c (statement (kindsOf all) limits verb c)
      (Written.readStatement limits verb ts) := by
  refine Agrees.even ?_
  cases verb with
  | select => exact agrees_select h hdepth hliteral
  | delete => exact agrees_delete h hdepth hliteral
  | insert => exact agrees_insert h hliteral
  | update => exact agrees_update h hliteral

theorem agrees_whole (limits : Limits) (verb : Verb) (ts : List Token) :
    Agrees ts toEnd ⟨0, 0, 0⟩ (statement (kindsOf ts) limits verb ⟨0, 0, 0⟩)
      (Written.readStatement limits verb ts) :=
  agrees_statement verb stands_start rfl rfl

-- what the reader of a value takes from tokens of which none are left over
def readSingle (limits : Limits) (ts : List Token) : Outcome Value := do
  let ⟨v, rest, _⟩ ← Written.readValue limits 0 ts
  Written.expectEnd rest
  .ok v

theorem agrees_single (h : Stands all ts c) (hliteral : c.literalDepth = 0) :
    Agrees all toEnd c (single (kindsOf all) limits c) (readSingle limits ts) := by
  refine Agrees.even ?_
  refine (agrees_value h hliteral).bind ?_
  rintro ⟨v, rest, hlt⟩ c₁ hvalue
  refine (agrees_expectEnd hvalue.stands).bind ?_
  intro _ c₂ hend
  exact agrees_ok (.refl hend.stands) rfl

end RecordQuery.Cursor
