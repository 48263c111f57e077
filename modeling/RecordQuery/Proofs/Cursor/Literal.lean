import RecordQuery.Proofs.Cursor.Basic
import RecordQuery.Proofs.Value.Conversion

namespace RecordQuery.Cursor

open Written (wordValue? documentOf)

section Routines

variable (kinds : List (Option Lexeme)) (limits : Limits)

def key (c : Cursor) : Step (String × Cursor) := do
  match ← look kinds c with
  | some (.string key) =>
      let c ← advance kinds c
      .ok (key, c)
  | some (.word key) =>
      let c ← advance kinds c
      .ok (key, c)
  | _ => unexpected kinds "object key" c

-- whether a key and a colon stand here
def startsEntry (c : Cursor) : Step Bool := do
  match ← look kinds c with
  | some (.string _) | some (.word _) =>
      let k ← lookBehind kinds c
      .ok (k = some (.mark .colon))
  | _ => .ok false

mutual

def value (c : Cursor) : Step (Value × Cursor) := even c do
  match ← look kinds c with
  | some (.string s) =>
      let c ← advance kinds c
      .ok (.string s, c)
  | some (.int i) =>
      let c ← advance kinds c
      .ok (.int i, c)
  | some (.decimal x) =>
      let c ← advance kinds c
      .ok (.float x, c)
  | some (.param name) =>
      let c ← advance kinds c
      .ok (.param name, c)
  | some (.word word) =>
      match wordValue? word with
      | some v =>
          let c ← advance kinds c
          .ok (v, c)
      | none =>
          let k ← lookBehind kinds c
          if word = "convert" ∧ k = some (.mark .openParen) then
            deepened limits .literal c fun c' _ => conversion c'
          else unexpected kinds "value" c
  | some (.mark .openBrace) => deepened limits .literal c fun c' _ => braces c'
  | some (.mark .openBracket) => deepened limits .literal c fun c' _ => brackets c'
  | some (.mark _) | none => unexpected kinds "value" c
termination_by 3 * (kinds.length - c.pos) + 1

def conversion (start : Cursor) : Step (Value × Cursor) := even start do
  let c ← advance kinds start
  let (_, c) ← expect kinds .openParen c
  let ⟨place, _⟩ ← onward kinds start c
  let (v, c) ← value place
  if v.params ≠ [] then fail .convertParameter place
  else
    let (_, c) ← expect kinds .comma c
    let (name, c) ← expectWord kinds "type name" c
    let (_, c) ← expect kinds .closeParen c
    let t ← accept (ScalarType.ofName name)
    let w ← accept (v.convert t)
    .ok (w, c)
termination_by 3 * (kinds.length - start.pos) + 0

def braces (start : Cursor) : Step (Value × Cursor) := even start do
  let (_, c) ← expect kinds .openBrace start
  let (closed, c) ← eat kinds .closeBrace c
  if closed then .ok (.document [], c)
  else
    let ⟨c, _⟩ ← onward kinds start c
    let keyed ← startsEntry kinds c
    if keyed then
      let (columns, c) ← entries c
      .ok (documentOf columns, c)
    else
      let (vs, c) ← items .closeBrace c
      .ok (.list vs, c)
termination_by 3 * (kinds.length - start.pos) + 0

def brackets (start : Cursor) : Step (Value × Cursor) := even start do
  let (_, c) ← expect kinds .openBracket start
  let (closed, c) ← eat kinds .closeBracket c
  if closed then .ok (.list [], c)
  else
    let ⟨c, _⟩ ← onward kinds start c
    let (vs, c) ← items .closeBracket c
    .ok (.list vs, c)
termination_by 3 * (kinds.length - start.pos) + 0

-- each repetition of the loop over the items
def items (close : Mark) (start : Cursor) : Step (List Value × Cursor) := even start do
  let (v, c) ← value start
  let (more, c) ← eat kinds .comma c
  if more then
    let ⟨c, _⟩ ← onward kinds start c
    let (vs, c) ← items close c
    .ok (v :: vs, c)
  else
    let (_, c) ← expect kinds close c
    .ok ([v], c)
termination_by 3 * (kinds.length - start.pos) + 2

def entries (start : Cursor) : Step (List Column × Cursor) := do
  let (name, c) ← key kinds start
  let (_, c) ← expect kinds .colon c
  let ⟨c, _⟩ ← onward kinds start c
  let (v, c) ← value c
  let (more, c) ← eat kinds .comma c
  if more then
    let ⟨c, _⟩ ← onward kinds start c
    let (columns, c) ← entries c
    .ok (⟨name, v⟩ :: columns, c)
  else
    let (_, c) ← expect kinds .closeBrace c
    .ok ([⟨name, v⟩], c)
termination_by 3 * (kinds.length - start.pos) + 2

end

end Routines

section Refusals

variable {t : ScalarType} {v : Value} {target : Target} {e : QueryError}

theorem isMalformed_of_conversion {α : Type} (h : (v.conversion target : Outcome α) = .error e) :
    e.isMalformed = false := by
  cases h
  rfl

theorem isMalformed_of_orConversion {α : Type} {o : Option α}
    (h : v.orConversion target o = .error e) : e.isMalformed = false := by
  cases o with
  | none => exact isMalformed_of_conversion h
  | some a => cases h

theorem isMalformed_of_toInt64 (h : v.toInt64 = .error e) : e.isMalformed = false := by
  unfold Value.toInt64 at h
  split at h
  · cases h
  · split at h
    · split at h
      · cases h
      · exact isMalformed_of_conversion h
    · exact isMalformed_of_conversion h
  · exact isMalformed_of_orConversion h
  · exact isMalformed_of_conversion h

theorem isMalformed_of_toDouble (h : v.toDouble = .error e) : e.isMalformed = false := by
  unfold Value.toDouble at h
  split at h
  · cases h
  · cases h
  · exact isMalformed_of_orConversion h
  · exact isMalformed_of_conversion h

theorem isMalformed_of_toBool (h : v.toBool = .error e) : e.isMalformed = false := by
  unfold Value.toBool at h
  split at h
  · cases h
  · split at h
    · cases h
    · split at h
      · cases h
      · exact isMalformed_of_conversion h
  · exact isMalformed_of_conversion h

theorem isMalformed_of_toText (h : v.toText = .error e) : e.isMalformed = false := by
  unfold Value.toText at h
  split at h
  · cases h
  · cases h
  · cases h
  · cases h
  · exact isMalformed_of_conversion h

theorem isMalformed_of_convertScalar (h : v.convertScalar t = .error e) :
    e.isMalformed = false := by
  cases t with
  | int => exact isMalformed_of_toInt64 (Outcome.map_eq_error.1 h)
  | float => exact isMalformed_of_toDouble (Outcome.map_eq_error.1 h)
  | bool => exact isMalformed_of_toBool (Outcome.map_eq_error.1 h)
  | string => exact isMalformed_of_toText (Outcome.map_eq_error.1 h)

theorem isMalformed_of_convert (h : v.convert t = .error e) : e.isMalformed = false := by
  induction v using Value.inductParts generalizing e with
  | null | bool | int | float | string | document | param => exact isMalformed_of_convertScalar h
  | list items ih =>
      rw [Value.convert_list] at h
      obtain ⟨before, v, after, rfl, -, hv⟩ := Outcome.mapM_eq_error.1 (Outcome.map_eq_error.1 h)
      exact ih v (List.mem_append_right _ List.mem_cons_self) hv

theorem isMalformed_of_ofName {name : String} (h : ScalarType.ofName name = .error e) :
    e.isMalformed = false := by
  rw [ScalarType.ofName] at h
  split at h
  · cases h
  · cases h
    rfl

end Refusals

variable {limits : Limits} {all ts : List Token} {c : Cursor}

theorem agrees_key (h : Stands all ts c) :
    Agrees all readView c (key (kindsOf all) c) (Written.readKey ts) := by
  rw [key, look_eq h]
  match ts with
  | ⟨.word name, source⟩ :: rest | ⟨.string name, source⟩ :: rest =>
      simp only [List.head?_cons, Option.map_some, Outcome.ok_bind, advance_eq h]
      exact agrees_ok h.reached_next rfl
  | [] | ⟨.int _, _⟩ :: _ | ⟨.decimal _, _⟩ :: _ | ⟨.param _, _⟩ :: _ | ⟨.mark _, _⟩ :: _ =>
      exact agrees_unexpected "object key" h

theorem startsEntry_eq (h : Stands all ts c) :
    startsEntry (kindsOf all) c = .ok (Written.startsEntry ts) := by
  rw [startsEntry, look_eq h]
  match ts with
  | ⟨.word _, _⟩ :: rest | ⟨.string _, _⟩ :: rest =>
      simp only [List.head?_cons, Option.map_some, Outcome.ok_bind, lookBehind_eq h]
      match rest with
      | ⟨.mark m, _⟩ :: _ => cases m <;> rfl
      | [] | ⟨.word _, _⟩ :: _ | ⟨.string _, _⟩ :: _ | ⟨.int _, _⟩ :: _ | ⟨.decimal _, _⟩ :: _
      | ⟨.param _, _⟩ :: _ => rfl
  | [] | ⟨.int _, _⟩ :: _ | ⟨.decimal _, _⟩ :: _ | ⟨.param _, _⟩ :: _ | ⟨.mark _, _⟩ :: _ => rfl

mutual

theorem agrees_value {ts : List Token} {c : Cursor} {depth : Nat} (h : Stands all ts c)
    (hdepth : c.literalDepth = depth) :
    Agrees all readView c (value (kindsOf all) limits c) (Written.readValue limits depth ts) := by
  subst hdepth
  rw [value, Written.readValue.eq_def]
  refine Agrees.even ?_
  have hdeep := h.withLevel .literal (c.literalDepth + 1)
  rw [look_eq h, Outcome.ok_bind]
  match ts with
  | [] => exact agrees_unexpected "value" h
  | ⟨.string _, _⟩ :: rest | ⟨.int _, _⟩ :: rest | ⟨.decimal _, _⟩ :: rest
  | ⟨.param _, _⟩ :: rest =>
      simp only [List.head?_cons, Option.map_some, advance_eq h, Outcome.ok_bind]
      exact agrees_ok h.reached_next rfl
  | ⟨.word word, source⟩ :: rest =>
      simp only [List.head?_cons, Option.map_some]
      cases hword : wordValue? word with
      | some v =>
          simp only [advance_eq h, Outcome.ok_bind]
          exact agrees_ok h.reached_next rfl
      | none =>
          simp only [lookBehind_eq h, Outcome.ok_bind]
          rcases Written.mark_or .openParen rest with ⟨source', rest', rfl⟩ | hopen
          · by_cases hconvert : word = "convert"
            · subst hconvert
              simp only [List.head?_cons, Option.map_some, and_self, if_true]
              exact agrees_deepened ((agrees_conversion hdeep rfl).wrap fun _ => rfl)
            · simp only [hconvert, false_and, if_false]
              exact agrees_unexpected "value" h
          · rw [if_neg fun hand => head?_ne_of_no_mark hopen hand.2]
            match rest with
            | ⟨.mark m, _⟩ :: _ =>
                cases m with
                | openParen => exact absurd rfl (hopen _ _)
                | _ => exact agrees_unexpected "value" h
            | [] | ⟨.string _, _⟩ :: _ | ⟨.int _, _⟩ :: _ | ⟨.decimal _, _⟩ :: _
            | ⟨.param _, _⟩ :: _ | ⟨.word _, _⟩ :: _ => exact agrees_unexpected "value" h
  | ⟨.mark m, source⟩ :: rest =>
      cases m with
      | openBrace => exact agrees_deepened ((agrees_braces hdeep rfl).wrap fun _ => rfl)
      | openBracket => exact agrees_deepened ((agrees_brackets hdeep rfl).wrap fun _ => rfl)
      | _ => exact agrees_unexpected "value" h
termination_by (ts.length, 0)

theorem agrees_braces {ts : List Token} {c : Cursor} {depth : Nat} {source : List Char}
    (h : Stands all (⟨.mark .openBrace, source⟩ :: ts) c) (hdepth : c.literalDepth = depth) :
    Agrees all readView c (braces (kindsOf all) limits c) (Written.readBraces limits depth ts) := by
  rw [braces]
  refine Agrees.even ?_
  rw [expect, eat_eq_true h]
  simp only [Outcome.ok_bind, if_true]
  refine .behind h.reached_next ?_
  rcases Written.mark_or .closeBrace ts with ⟨source', rest, rfl⟩ | hopen
  · rw [Written.readBraces.eq_1, eat_eq_true h.next]
    exact agrees_ok h.next.reached_next rfl
  · obtain ⟨hc, honward⟩ := onward_eq h h.next (Nat.lt_succ_self _)
    rw [Written.readBraces.eq_2 limits depth ts hopen, eat_eq_false h.next hopen]
    simp only [Outcome.ok_bind, Bool.false_eq_true, if_false, honward, startsEntry_eq h.next]
    cases Written.startsEntry ts with
    | true => exact (agrees_entries h.next hdepth).map (fun _ _ => rfl) fun _ => rfl
    | false => exact (agrees_items .closeBrace h.next hdepth).map (fun _ _ => rfl) fun _ => rfl
termination_by (ts.length, 2)

theorem agrees_brackets {ts : List Token} {c : Cursor} {depth : Nat} {source : List Char}
    (h : Stands all (⟨.mark .openBracket, source⟩ :: ts) c) (hdepth : c.literalDepth = depth) :
    Agrees all readView c (brackets (kindsOf all) limits c)
      (Written.readBrackets limits depth ts) := by
  rw [brackets]
  refine Agrees.even ?_
  rw [expect, eat_eq_true h]
  simp only [Outcome.ok_bind, if_true]
  refine .behind h.reached_next ?_
  rcases Written.mark_or .closeBracket ts with ⟨source', rest, rfl⟩ | hopen
  · rw [Written.readBrackets.eq_1, eat_eq_true h.next]
    exact agrees_ok h.next.reached_next rfl
  · obtain ⟨hc, honward⟩ := onward_eq h h.next (Nat.lt_succ_self _)
    rw [Written.readBrackets.eq_2 limits depth ts hopen, eat_eq_false h.next hopen]
    simp only [Outcome.ok_bind, Bool.false_eq_true, if_false, honward]
    exact (agrees_items .closeBracket h.next hdepth).map (fun _ _ => rfl) fun _ => rfl
termination_by (ts.length, 2)

theorem agrees_items {ts : List Token} {c : Cursor} {depth : Nat} (close : Mark)
    (h : Stands all ts c) (hdepth : c.literalDepth = depth) :
    Agrees all readView c (items (kindsOf all) limits close c)
      (Written.readItems limits depth close ts) := by
  rw [items, Written.readItems]
  refine Agrees.even ?_
  refine (agrees_value h hdepth).bind ?_
  rintro ⟨v, rest, hlt⟩ c₁ hvalue
  dsimp only [readView] at hvalue ⊢
  rcases eat_comma_onward h hvalue.stands hlt with
    ⟨r, c₂, hc, hcomma, heat, honward, hnext, hr⟩ | ⟨hcomma, heat⟩
  · simp only [hcomma, heat, honward, Outcome.ok_bind, if_true]
    have hagain : c₂.literalDepth = depth := by rw [hnext.literalDepth, hvalue.literalDepth, hdepth]
    exact .behind hnext ((agrees_items close hnext.stands hagain).map (fun _ _ => rfl) fun _ => rfl)
  · simp only [hcomma, heat, Outcome.ok_bind, Bool.false_eq_true, if_false]
    exact (agrees_expect close hvalue.stands).map (fun _ _ => rfl) fun _ => rfl
termination_by (ts.length, 1)

theorem agrees_entries {ts : List Token} {c : Cursor} {depth : Nat} (h : Stands all ts c)
    (hdepth : c.literalDepth = depth) :
    Agrees all readView c (entries (kindsOf all) limits c)
      (Written.readEntries limits depth ts) := by
  rw [entries, Written.readEntries]
  refine (agrees_key h).bind ?_
  rintro ⟨name, rest₁, hlt₁⟩ c₁ hkey
  refine (agrees_expect .colon hkey.stands).bind ?_
  rintro ⟨_, rest₂, hlt₂⟩ c₂ hcolon
  dsimp only [readView] at hkey hcolon ⊢
  have hlt : rest₂.length < ts.length := Nat.lt_trans hlt₂ hlt₁
  obtain ⟨_, hvalueOnward⟩ := onward_eq h hcolon.stands hlt
  simp only [hvalueOnward, Outcome.ok_bind]
  have hdepth₂ : c₂.literalDepth = depth := by rw [hcolon.literalDepth, hkey.literalDepth, hdepth]
  refine (agrees_value hcolon.stands hdepth₂).bind ?_
  rintro ⟨v, rest₃, hlt₃⟩ c₃ hvalue
  dsimp only [readView] at hvalue ⊢
  rcases eat_comma_onward h hvalue.stands (Nat.lt_trans hlt₃ hlt) with
    ⟨r, c₄, hc, hcomma, heat, honward, hnext, hr⟩ | ⟨hcomma, heat⟩
  · simp only [hcomma, heat, honward, Outcome.ok_bind, if_true]
    have hdepth₄ : c₄.literalDepth = depth := by
      rw [hnext.literalDepth, hvalue.literalDepth, hdepth₂]
    exact .behind hnext ((agrees_entries hnext.stands hdepth₄).map (fun _ _ => rfl) fun _ => rfl)
  · simp only [hcomma, heat, Outcome.ok_bind, Bool.false_eq_true, if_false]
    exact (agrees_expect .closeBrace hvalue.stands).map (fun _ _ => rfl) fun _ => rfl
termination_by (ts.length, 1)

theorem agrees_conversion {ts : List Token} {c : Cursor} {depth : Nat} {source source' : List Char}
    (h : Stands all (⟨.word "convert", source⟩ :: ⟨.mark .openParen, source'⟩ :: ts) c)
    (hdepth : c.literalDepth = depth) :
    Agrees all readView c (conversion (kindsOf all) limits c)
      (Written.readConversion limits depth ts) := by
  rw [conversion, Written.readConversion]
  refine Agrees.even ?_
  rw [advance_eq h, Outcome.ok_bind, expect, eat_eq_true h.next]
  simp only [Outcome.ok_bind, if_true]
  obtain ⟨_, honward⟩ := onward_eq h h.next.next (Nat.lt_succ_of_lt (Nat.lt_succ_self _))
  simp only [honward, Outcome.ok_bind]
  refine .behind (h.reached_next.trans h.next.reached_next) ?_
  refine (agrees_value h.next.next hdepth).bind ?_
  rintro ⟨v, rest₁, hlt₁⟩ c₁ hvalue
  refine Agrees.ite (fun _ => ?_) fun _ => ?_
  · -- the error stands at the value, behind which the cursor already is
    exact agrees_fail .convertParameter h.next.next
  · refine (agrees_expect .comma hvalue.stands).bind ?_
    rintro ⟨_, rest₂, hlt₂⟩ c₂ hcomma
    refine (agrees_expectWord "type name" hcomma.stands).bind ?_
    rintro ⟨name, rest₃, hlt₃⟩ c₃ hname
    refine (agrees_expect .closeParen hname.stands).bind ?_
    rintro ⟨_, rest₄, hlt₄⟩ c₄ hclose
    refine Agrees.accept (fun _ => isMalformed_of_ofName) fun t _ => ?_
    refine Agrees.accept (fun _ => isMalformed_of_convert) fun w _ => ?_
    exact agrees_ok (.refl hclose.stands) rfl
termination_by (ts.length, 1)

end

end RecordQuery.Cursor
