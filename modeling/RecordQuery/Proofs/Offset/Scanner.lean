import RecordQuery.Proofs.Cursor.Basic
import RecordQuery.Proofs.Offset.Slice
import RecordQuery.Proofs.Token.Numeral

/-!
Splitting a text into tokens at byte offsets. The scanner keeps the offset behind what it has taken
by hand, next to the characters that are left with their offsets; what it looks at further on and
the texts of its tokens are cut out of the text.
-/

namespace RecordQuery.Offset

open String (Pos.Raw)
open Cursor (Breakdown)
open Token (isNameChar isWordStart isWordChar unescape numeralValue mark? dropWhile_eq_drop
  takeWhile_append_drop fraction_append_drop numeralTail_append_drop blanks_append_afterBlanks)

inductive Failure where
  | told (e : QueryError)
  | broken (b : Breakdown)

abbrev Attempt := Except Failure

/-- A token and its offset; the end of the text has no lexeme. -/
abbrev Spot := Option Lexeme × Pos.Raw

def indices : Pos.Raw → List Char → List (Pos.Raw × Char)
  | _, [] => []
  | p, c :: cs => (p, c) :: indices (p + c) cs

structure Scanner where
  pos : Pos.Raw
  left : List (Pos.Raw × Char)

def Scanner.start (text : String) : Scanner := ⟨0, indices 0 text.toList⟩

section Routines

variable (text : String)

def slice (a b : Pos.Raw) : Attempt String :=
  match slice? text a b with
  | some part => .ok part
  | none => .error (.broken .torn)

-- the first characters, with dots where the text from there on is longer
def fragment (rest : String) : Attempt String := do
  let body := String.ofList (Text.afterBlanks rest.toList)
  match (indices 0 body.toList)[QueryError.fragmentLength]? with
  | some (p, _) =>
      let short ← slice body 0 p
      .ok (short ++ "...")
  | none => .ok body

def tell {α : Type} (fault : Fault) (p : Pos.Raw) : Attempt α := do
  let rest ← slice text p text.rawEndPos
  let shown ← fragment rest
  .error (.told (.malformed fault shown))

def peek (s : Scanner) : Option Char := s.left.head?.map Prod.snd

def advance (s : Scanner) : Scanner :=
  match s.left with
  | [] => s
  | (p, c) :: left => ⟨p + c, left⟩

def advanceWhile (p : Char → Bool) : Pos.Raw → List (Pos.Raw × Char) → Scanner
  | pos, [] => ⟨pos, []⟩
  | pos, (q, c) :: left => if p c then advanceWhile p (q + c) left else ⟨pos, (q, c) :: left⟩

def skip (p : Char → Bool) (s : Scanner) : Scanner := advanceWhile p s.pos s.left

-- what stands behind the next character
def peekBehind (s : Scanner) : Attempt (List Char) := do
  let rest ← slice text s.pos text.rawEndPos
  .ok (rest.toList.drop 1)

def startsDigit (cs : List Char) : Bool := (cs.head?.map Char.isDigit).getD false

-- the characters of a string behind its opening quote
def quoted (quote : Char) : List (Pos.Raw × Char) → Except Fault (List Char × Scanner)
  | [] => .error .unterminatedString
  | (p, c) :: left =>
      if c = quote then .ok ([], ⟨p + c, left⟩)
      else if c = '\\' then
        match left with
        | [] => .error .unterminatedEscape
        | (_, d) :: left => (quoted quote left).map fun (cs, s) => (unescape d :: cs, s)
      else (quoted quote left).map fun (cs, s) => (c :: cs, s)

def string (quote : Char) (s : Scanner) : Attempt (Lexeme × Scanner) :=
  match quoted quote (advance s).left with
  | .ok (cs, s') => .ok (.string (String.ofList cs), s')
  | .error fault => tell text fault s.pos

def param (s : Scanner) : Attempt (Lexeme × Scanner) := do
  let named := advance s
  let s' := skip isNameChar named
  if s'.pos = named.pos then tell text .parameterName s.pos
  else
    let name ← slice text named.pos s'.pos
    .ok (.param name, s')

def fraction (s : Scanner) : Attempt (Bool × Scanner) := do
  if peek s = some '.' then
    let behind ← peekBehind text s
    if startsDigit behind then .ok (true, skip Char.isDigit (advance s)) else .ok (false, s)
  else .ok (false, s)

def isSign (c : Char) : Bool := c = '+' || c = '-'

def isExponentMark (c : Char) : Bool := c = 'e' || c = 'E'

def nextIs (p : Char → Bool) (s : Scanner) : Bool := ((peek s).map p).getD false

def startsExponent : List Char → Bool
  | [] => false
  | c :: cs => if isSign c then startsDigit cs else c.isDigit

def exponent (s : Scanner) : Attempt (Bool × Scanner) := do
  if nextIs isExponentMark s then
    let behind ← peekBehind text s
    if startsExponent behind then
      let s := advance s
      let s := if nextIs isSign s then advance s else s
      .ok (true, skip Char.isDigit s)
    else .ok (false, s)
  else .ok (false, s)

def number (s : Scanner) : Attempt (Lexeme × Scanner) := do
  let signed := if nextIs isSign s then advance s else s
  let (hasFraction, s') ← fraction text (skip Char.isDigit signed)
  let (hasExponent, s') ← exponent text s'
  let literal ← slice text s.pos s'.pos
  match numeralValue literal.toList (hasFraction || hasExponent) with
  | .ok l => .ok (l, s')
  | .error fault => tell text fault s.pos

def word (s : Scanner) : Attempt (Lexeme × Scanner) := do
  let s' := skip isWordChar s
  let name ← slice text s.pos s'.pos
  .ok (.word name, s')

def order (plain orEqual : Mark) (s : Scanner) : Lexeme × Scanner :=
  let s := advance s
  if peek s = some '=' then (.mark orEqual, advance s) else (.mark plain, s)

-- whether the character is a sign, and a digit stands behind it
def signsDigit (c : Char) (s : Scanner) : Attempt Bool := do
  if isSign c then
    let behind ← peekBehind text s
    .ok (startsDigit behind)
  else .ok false

-- the token that the next character begins
def lexeme (c : Char) (s : Scanner) : Attempt (Lexeme × Scanner) := do
  if c = '"' ∨ c = '\'' then string text c s
  else if c = '@' then param text s
  else if c.isDigit then number text s
  else
    let signed ← signsDigit text c s
    if signed then number text s
    else if isWordStart c then word text s
    else if c = '>' then .ok (order .greater .greaterEqual s)
    else if c = '<' then .ok (order .less .lessEqual s)
    else
      match mark? c with
      | some m => .ok (.mark m, advance s)
      | none => tell text (.unexpectedCharacter c) s.pos

def token (s : Scanner) : Attempt (Spot × Scanner) := do
  let s := skip Text.isBlank s
  match peek s with
  | none => .ok ((none, s.pos), s)
  | some c =>
      let (l, s') ← lexeme text c s
      .ok ((some l, s.pos), s')

-- no token leaves as many characters as there were
def tokens (s : Scanner) : Attempt (List Spot) := do
  let (spot, s') ← token text s
  match spot.1 with
  | none => .ok [spot]
  | some _ =>
      if s'.left.length < s.left.length then
        let more ← tokens s'
        .ok (spot :: more)
      else .error (.broken .stalled)
termination_by s.left.length

end Routines

def Scanner.at (taken cs : List Char) : Scanner := ⟨bound taken, indices (bound taken) cs⟩

variable {text : String} {taken cs mid rest : List Char} {c : Char}

@[simp] theorem pos_at (taken cs : List Char) : (Scanner.at taken cs).pos = bound taken := rfl

theorem getElem?_indices (taken cs : List Char) (n : Nat) :
    (indices (bound taken) cs)[n]? = cs[n]?.map fun c => (bound (taken ++ cs.take n), c) := by
  induction cs generalizing taken n with
  | nil => rfl
  | cons c cs ih =>
      cases n with
      | zero => simp [indices]
      | succ n =>
          rw [indices, List.getElem?_cons_succ, ← bound_concat, ih, List.getElem?_cons_succ,
            List.take_succ_cons, List.append_assoc]
          rfl

@[simp] theorem length_indices (p : Pos.Raw) (cs : List Char) :
    (indices p cs).length = cs.length := by
  induction cs generalizing p with
  | nil => rfl
  | cons c cs ih => rw [indices, List.length_cons, ih, List.length_cons]

@[simp] theorem peek_at (taken cs : List Char) : peek (.at taken cs) = cs.head? := by
  cases cs <;> rfl

theorem advance_at (taken cs : List Char) (c : Char) :
    advance (.at taken (c :: cs)) = .at (taken ++ [c]) cs := by
  rw [Scanner.at, Scanner.at, bound_concat]
  rfl

theorem skip_at (p : Char → Bool) (taken cs : List Char) :
    skip p (.at taken cs) = .at (taken ++ cs.takeWhile p) (cs.dropWhile p) := by
  induction cs generalizing taken with
  | nil => simp [skip, Scanner.at, indices, advanceWhile]
  | cons c cs ih =>
      cases hc : p c with
      | true =>
          have hstep : skip p (.at taken (c :: cs)) = skip p (.at (taken ++ [c]) cs) := by
            simp only [skip, Scanner.at, indices, advanceWhile, hc, if_true, bound_concat]
          rw [hstep, ih, List.takeWhile_cons_of_pos hc, List.dropWhile_cons_of_pos hc,
            List.append_assoc]
          rfl
      | false =>
          rw [List.takeWhile_cons_of_neg (by simp [hc]), List.dropWhile_cons_of_neg (by simp [hc]),
            List.append_nil]
          simp [skip, Scanner.at, indices, advanceWhile, hc]

theorem slice_eq (h : text.toList = taken ++ mid ++ rest) :
    slice text (bound taken) (bound (taken ++ mid)) = .ok (String.ofList mid) := by
  rw [slice, slice?_eq h]

theorem slice_eq_rest (h : text.toList = taken ++ rest) :
    slice text (bound taken) text.rawEndPos = .ok (String.ofList rest) := by
  rw [slice, slice?_eq_rest h]

theorem peekBehind_at (h : text.toList = taken ++ cs) :
    peekBehind text (.at taken cs) = .ok (cs.drop 1) := by
  rw [peekBehind, Scanner.at, slice_eq_rest h]
  simp [Bind.bind, Except.bind]

theorem fragment_ofList (rest : List Char) :
    fragment (String.ofList rest) = .ok (QueryError.fragment rest) := by
  simp only [fragment, String.toList_ofList, QueryError.fragment]
  rw [← bound_nil, getElem?_indices]
  by_cases hlong : QueryError.fragmentLength < (Text.afterBlanks rest).length
  · have hbody : (String.ofList (Text.afterBlanks rest)).toList = [] ++
        (Text.afterBlanks rest).take QueryError.fragmentLength ++
        (Text.afterBlanks rest).drop QueryError.fragmentLength := by
      rw [String.toList_ofList, List.nil_append, List.take_append_drop]
    rw [List.getElem?_eq_getElem hlong, if_pos hlong]
    simp only [Option.map_some]
    rw [slice_eq hbody]
    rfl
  · rw [List.getElem?_eq_none (Nat.not_lt.1 hlong), if_neg hlong]
    rfl

theorem tell_eq {α : Type} (fault : Fault) (h : text.toList = taken ++ rest) :
    (tell text fault (bound taken) : Attempt α) =
      .error (.told (.malformed fault (QueryError.fragment rest))) := by
  rw [tell, slice_eq_rest h, Outcome.ok_bind, fragment_ofList]
  rfl

section Lexemes

open Token (scanString scan)

/-- What the scanner reads has the outcome of the scan: it comes to stand before what that leaves,
or fails with its fault. -/
def Scans {ε α : Type} (fail : Fault → ε) (taken : List Char) {input : List Char}
    (a : Except ε (α × Scanner)) (o : Except Fault (Read Char α input)) : Prop :=
  match o with
  | .ok r => ∃ mid, input = mid ++ r.rest ∧ a = .ok (r.value, .at (taken ++ mid) r.rest)
  | .error fault => a = .error (fail fault)

theorem Scans.behind {ε α β : Type} {fail : Fault → ε} {pre : List Char} {f : α → β}
    {a : Except ε (α × Scanner)} {o : Except Fault (Read Char α cs)}
    (h : Scans fail (taken ++ pre) a o) (hle : cs.length ≤ (pre ++ cs).length) :
    Scans fail taken (a.map fun (v, s) => (f v, s)) (o.map fun r => (r.map f).within hle) := by
  cases o with
  | error fault =>
      obtain rfl : a = .error (fail fault) := h
      rfl
  | ok r =>
      obtain ⟨mid, hmid, rfl⟩ := h
      refine ⟨pre ++ mid, ?_, ?_⟩
      · rw [List.append_assoc]
        exact congrArg (pre ++ ·) hmid
      · rw [← List.append_assoc]
        rfl

theorem quoted_at (quote : Char) (taken cs : List Char) :
    Scans id taken (quoted quote (indices (bound taken) cs)) (scanString quote cs) := by
  match cs with
  | [] => exact rfl
  | c :: cs =>
      rw [indices, quoted.eq_def, Token.scanString.eq_def]
      dsimp only
      by_cases hquote : c = quote
      · rw [if_pos hquote, if_pos hquote, ← bound_concat]
        exact ⟨[c], rfl, rfl⟩
      · rw [if_neg hquote, if_neg hquote]
        by_cases hescape : c = '\\'
        · rw [if_pos hescape, if_pos hescape]
          match cs with
          | [] => exact rfl
          | d :: cs =>
              have ih := quoted_at quote (taken ++ [c, d]) cs
              have hbound : bound (taken ++ [c, d]) = bound taken + c + d := by
                rw [← bound_concat, ← bound_concat, List.append_assoc]
                rfl
              rw [hbound] at ih
              exact ih.behind _
        · rw [if_neg hescape, if_neg hescape, ← bound_concat]
          exact (quoted_at quote (taken ++ [c]) cs).behind _

theorem startsDigit_eq_true {ds : List Char} :
    startsDigit ds = true ↔ ds.takeWhile Char.isDigit ≠ [] := by
  cases ds with
  | nil => simp [startsDigit]
  | cons d ds =>
      cases hd : d.isDigit <;> simp [startsDigit, hd]

theorem fraction_at (h : text.toList = taken ++ cs) :
    fraction text (.at taken cs) = .ok (decide (Token.fraction cs ≠ []),
      .at (taken ++ Token.fraction cs) (cs.drop (Token.fraction cs).length)) := by
  rw [fraction, peek_at]
  by_cases hpoint : cs.head? = some '.'
  · obtain ⟨cs, rfl⟩ := List.head?_eq_some_iff.1 hpoint
    rw [if_pos hpoint, peekBehind_at h, Outcome.ok_bind, List.drop_one, List.tail_cons,
      Token.fraction]
    by_cases hdigits : cs.takeWhile Char.isDigit = []
    · have hno : startsDigit cs = false :=
        Bool.eq_false_iff.2 fun hstarts => startsDigit_eq_true.1 hstarts hdigits
      simp [hno, hdigits]
    · have hstarts : startsDigit cs = true := startsDigit_eq_true.2 hdigits
      simp [hstarts, hdigits, advance_at, skip_at, dropWhile_eq_drop]
  · have hnone : Token.fraction cs = [] := by
      unfold Token.fraction
      split
      · exact absurd rfl hpoint
      · rfl
    rw [if_neg hpoint, hnone]
    simp

theorem isSign_eq_true {c : Char} : isSign c = true ↔ c = '+' ∨ c = '-' := by
  simp [isSign]

theorem startsExponent_eq_true : startsExponent cs = true ↔ Token.exponentDigits cs ≠ [] := by
  cases cs with
  | nil => simp [startsExponent, Token.exponentDigits]
  | cons c cs =>
      rw [startsExponent, Token.exponentDigits]
      by_cases hsign : c = '+' ∨ c = '-'
      · rw [if_pos hsign, if_pos (isSign_eq_true.2 hsign), startsDigit_eq_true]
        simp
      · rw [if_neg hsign, if_neg fun hc => hsign (isSign_eq_true.1 hc)]
        cases hc : c.isDigit <;> simp [hc]

theorem nextIs_at (p : Char → Bool) (taken cs : List Char) :
    nextIs p (.at taken cs) = (cs.head?.map p).getD false := by
  rw [nextIs, peek_at]

theorem exponentDigits_at (taken : List Char) (h : Token.exponentDigits cs ≠ []) :
    skip Char.isDigit (if nextIs isSign (.at taken cs) then advance (.at taken cs)
      else .at taken cs) =
      .at (taken ++ Token.exponentDigits cs) (cs.drop (Token.exponentDigits cs).length) := by
  cases cs with
  | nil => exact absurd rfl h
  | cons c cs =>
      rw [nextIs_at, List.head?_cons, Option.map_some, Option.getD_some]
      rw [Token.exponentDigits] at h ⊢
      by_cases hsign : c = '+' ∨ c = '-'
      · rw [if_pos hsign] at h ⊢
        have hdigits : cs.takeWhile Char.isDigit ≠ [] := by
          intro hnil
          exact h (if_pos hnil)
        rw [if_pos (isSign_eq_true.2 hsign)]
        dsimp only
        rw [if_neg hdigits, advance_at, skip_at, List.append_assoc, dropWhile_eq_drop]
        rfl
      · rw [if_neg hsign, if_neg fun hc => hsign (isSign_eq_true.1 hc), skip_at, dropWhile_eq_drop]

theorem exponent_at (h : text.toList = taken ++ cs) :
    exponent text (.at taken cs) = .ok (decide (Token.exponent cs ≠ []),
      .at (taken ++ Token.exponent cs) (cs.drop (Token.exponent cs).length)) := by
  rw [exponent, nextIs, peek_at]
  match cs with
  | [] => simp [Token.exponent]
  | c :: cs =>
      by_cases hmark : c = 'e' ∨ c = 'E'
      · have hc : isExponentMark c = true := by simpa [isExponentMark] using hmark
        rw [Token.exponent, if_pos hmark, peekBehind_at h]
        simp only [List.head?_cons, Option.map_some, Option.getD_some, hc, if_true,
          Outcome.ok_bind, List.drop_one, List.tail_cons, advance_at]
        by_cases hdigits : Token.exponentDigits cs = []
        · have hno : startsExponent cs = false :=
            Bool.eq_false_iff.2 fun hstarts => startsExponent_eq_true.1 hstarts hdigits
          simp [hno, hdigits]
        · rw [if_pos (startsExponent_eq_true.2 hdigits), if_neg hdigits,
            exponentDigits_at _ hdigits, List.append_assoc]
          rfl
      · have hno : isExponentMark c = false := by simpa [isExponentMark] using hmark
        simp [Token.exponent, hmark, hno]

theorem whole_at (taken cs : List Char) (hstart : c.isDigit = true ∨ isSign c = true) :
    skip Char.isDigit (if nextIs isSign (.at taken (c :: cs)) then advance (.at taken (c :: cs))
      else .at taken (c :: cs)) =
      .at (taken ++ c :: cs.takeWhile Char.isDigit)
        (cs.drop (cs.takeWhile Char.isDigit).length) := by
  rw [nextIs_at, List.head?_cons, Option.map_some, Option.getD_some]
  by_cases hsign : isSign c = true
  · rw [if_pos hsign, advance_at, skip_at, List.append_assoc, dropWhile_eq_drop]
    rfl
  · have hc : c.isDigit = true := hstart.resolve_right hsign
    rw [if_neg hsign, skip_at, List.takeWhile_cons_of_pos hc, List.dropWhile_cons_of_pos hc,
      dropWhile_eq_drop]

def toldAt (rest : List Char) (fault : Fault) : Failure :=
  .told (.malformed fault (QueryError.fragment rest))

theorem scans_dropTail {ε α : Type} {fail : Fault → ε} {a : Except ε (α × Scanner)} {v : α}
    {tail : List Char} (htail : tail ++ cs.drop tail.length = cs)
    (ha : a = .ok (v, .at (taken ++ c :: tail) (cs.drop tail.length))) :
    Scans fail taken a (.ok (Token.dropTail v c cs tail.length)) :=
  ⟨c :: tail, congrArg (c :: ·) htail.symm, ha⟩

theorem number_at (h : text.toList = taken ++ c :: cs)
    (hstart : c.isDigit = true ∨ isSign c = true) :
    Scans (toldAt (c :: cs)) taken (number text (.at taken (c :: cs)))
      ((numeralValue (c :: (Token.numeralTail cs).1) (Token.numeralTail cs).2).map fun l =>
        Token.dropTail l c cs (Token.numeralTail cs).1.length) := by
  have hwhole : text.toList = (taken ++ c :: cs.takeWhile Char.isDigit) ++
      cs.drop (cs.takeWhile Char.isDigit).length := by
    rw [List.append_assoc, List.cons_append, takeWhile_append_drop, h]
  have hfraction : text.toList = (taken ++ c :: cs.takeWhile Char.isDigit) ++
      Token.fraction (cs.drop (cs.takeWhile Char.isDigit).length) ++
      (cs.drop (cs.takeWhile Char.isDigit).length).drop
        (Token.fraction (cs.drop (cs.takeWhile Char.isDigit).length)).length := by
    rw [List.append_assoc _ (Token.fraction _), fraction_append_drop, hwhole]
  have hread : number text (.at taken (c :: cs)) =
      match numeralValue (c :: (Token.numeralTail cs).1) (Token.numeralTail cs).2 with
      | .ok l => .ok (l, .at (taken ++ c :: (Token.numeralTail cs).1)
          (cs.drop (Token.numeralTail cs).1.length))
      | .error fault => tell text fault (bound taken) := by
    have hliteral : text.toList = taken ++ (c :: (Token.numeralTail cs).1) ++
        cs.drop (Token.numeralTail cs).1.length := by
      rw [List.append_assoc, List.cons_append, numeralTail_append_drop, h]
    have hslice := slice_eq hliteral
    simp only [number, whole_at taken cs hstart, fraction_at hwhole, exponent_at hfraction,
      Outcome.ok_bind, pos_at]
    simp only [Token.numeralTail, List.append_assoc, List.cons_append, List.length_append,
      ← List.drop_drop] at hslice ⊢
    rw [hslice, Outcome.ok_bind, String.toList_ofList]
  rw [hread]
  cases numeralValue (c :: (Token.numeralTail cs).1) (Token.numeralTail cs).2 with
  | ok l => exact scans_dropTail (numeralTail_append_drop cs) rfl
  | error fault => exact tell_eq fault h

theorem string_at (h : text.toList = taken ++ c :: cs) :
    Scans (toldAt (c :: cs)) taken (string text c (.at taken (c :: cs)))
      ((scanString c cs).map fun r =>
        ((r.map fun s => Lexeme.string (String.ofList s)).within (Nat.le_succ _) :
          Read Char Lexeme (c :: cs))) := by
  have hquoted := quoted_at c (taken ++ [c]) cs
  rw [string, advance_at]
  cases hscan : scanString c cs with
  | error fault =>
      rw [hscan] at hquoted
      have hfails : quoted c (indices (bound (taken ++ [c])) cs) = .error fault := hquoted
      simp only [Scanner.at, hfails]
      exact tell_eq fault h
  | ok r =>
      rw [hscan] at hquoted
      obtain ⟨mid, hmid, hread⟩ := hquoted
      simp only [Scanner.at, hread]
      refine ⟨c :: mid, congrArg (c :: ·) hmid, ?_⟩
      rw [List.append_assoc]
      rfl

theorem param_at (h : text.toList = taken ++ c :: cs) :
    Scans (toldAt (c :: cs)) taken (param text (.at taken (c :: cs)))
      (let name := cs.takeWhile isNameChar
      if name = [] then .error .parameterName
      else .ok (Token.dropTail (.param (String.ofList name)) c cs name.length)) := by
  have hnamed : text.toList = taken ++ [c] ++ cs.takeWhile isNameChar ++
      cs.drop (cs.takeWhile isNameChar).length := by
    rw [List.append_assoc (taken ++ [c]), takeWhile_append_drop, List.append_assoc, h]
    rfl
  simp only [param, advance_at, skip_at, dropWhile_eq_drop, pos_at]
  by_cases hname : cs.takeWhile isNameChar = []
  · have heq : bound (taken ++ [c] ++ cs.takeWhile isNameChar) = bound (taken ++ [c]) := by
      rw [hname, List.append_nil]
    rw [if_pos heq, if_pos hname]
    exact tell_eq .parameterName h
  · have hne : bound (taken ++ [c] ++ cs.takeWhile isNameChar) ≠ bound (taken ++ [c]) := by
      obtain ⟨d, ds, hds⟩ := List.exists_cons_of_ne_nil hname
      rw [hds]
      exact String.Pos.Raw.ne_of_gt (bound_lt_append _ d ds)
    rw [if_neg hne, if_neg hname, slice_eq hnamed]
    refine scans_dropTail (takeWhile_append_drop isNameChar cs) ?_
    rw [List.append_assoc]
    rfl

theorem word_at (h : text.toList = taken ++ c :: cs) (hc : isWordChar c = true) :
    word text (.at taken (c :: cs)) =
      .ok (.word (String.ofList (c :: cs.takeWhile isWordChar)),
        .at (taken ++ c :: cs.takeWhile isWordChar)
          (cs.drop (cs.takeWhile isWordChar).length)) := by
  have hword : text.toList = taken ++ (c :: cs.takeWhile isWordChar) ++
      cs.drop (cs.takeWhile isWordChar).length := by
    rw [List.append_assoc, List.cons_append, takeWhile_append_drop, h]
  rw [word, skip_at, List.takeWhile_cons_of_pos hc, List.dropWhile_cons_of_pos hc,
    dropWhile_eq_drop]
  dsimp only [Scanner.at]
  rw [slice_eq hword]
  rfl

theorem order_at (plain orEqual : Mark) (taken cs : List Char) (c : Char) (rest : List Char) :
    Scans (toldAt rest) taken (.ok (order plain orEqual (.at taken (c :: cs))))
      (.ok (Token.scanOrder plain orEqual c cs)) := by
  rw [order, advance_at, Token.scanOrder, peek_at]
  by_cases hequal : cs.head? = some '='
  · obtain ⟨cs, rfl⟩ := List.head?_eq_some_iff.1 hequal
    rw [if_pos hequal, if_pos hequal, advance_at, List.append_assoc]
    exact ⟨[c, '='], rfl, rfl⟩
  · rw [if_neg hequal, if_neg hequal]
    exact ⟨[c], rfl, rfl⟩

theorem startsNumeral_eq (c : Char) (cs : List Char) :
    Token.startsNumeral c cs = (c.isDigit || (isSign c && startsDigit cs)) := by
  rw [Token.startsNumeral, isSign, startsDigit, Bool.or_comm (decide (c = '-'))]

theorem signsDigit_at (h : text.toList = taken ++ c :: cs) :
    signsDigit text c (.at taken (c :: cs)) = .ok (isSign c && startsDigit cs) := by
  rw [signsDigit]
  cases isSign c with
  | true =>
      rw [if_pos rfl, peekBehind_at h]
      rfl
  | false => rfl

theorem lexeme_at (h : text.toList = taken ++ c :: cs) :
    Scans (toldAt (c :: cs)) taken (lexeme text c (.at taken (c :: cs))) (scan c cs) := by
  rw [lexeme, scan]
  by_cases hquote : c = '"' ∨ c = '\''
  · rw [if_pos hquote, if_pos hquote]
    exact string_at h
  rw [if_neg hquote, if_neg hquote]
  by_cases hat : c = '@'
  · rw [if_pos hat, if_pos hat]
    exact param_at h
  rw [if_neg hat, if_neg hat, startsNumeral_eq]
  by_cases hdigit : c.isDigit = true
  · rw [if_pos hdigit, if_pos (by rw [hdigit, Bool.true_or])]
    exact number_at h (.inl hdigit)
  rw [if_neg hdigit, Bool.eq_false_iff.2 hdigit, Bool.false_or, signsDigit_at h, Outcome.ok_bind]
  by_cases hsigned : (isSign c && startsDigit cs) = true
  · rw [if_pos hsigned, if_pos hsigned]
    exact number_at h (.inr (Bool.and_eq_true_iff.1 hsigned).1)
  rw [if_neg hsigned, if_neg hsigned]
  by_cases hword : isWordStart c = true
  · rw [if_pos hword, if_pos hword]
    have hchar : isWordChar c = true := by
      rcases Bool.or_eq_true_iff.1 hword with hletter | hline
      · simp [isWordChar, isNameChar, hletter]
      · simp [isWordChar, isNameChar, hline]
    exact scans_dropTail (takeWhile_append_drop isWordChar cs) (word_at h hchar)
  rw [if_neg hword, if_neg hword]
  by_cases hgreater : c = '>'
  · rw [if_pos hgreater, if_pos hgreater]
    exact order_at .greater .greaterEqual taken cs c _
  rw [if_neg hgreater, if_neg hgreater]
  by_cases hless : c = '<'
  · rw [if_pos hless, if_pos hless]
    exact order_at .less .lessEqual taken cs c _
  rw [if_neg hless, if_neg hless]
  cases mark? c with
  | some m =>
      refine ⟨[c], rfl, ?_⟩
      rw [advance_at]
      rfl
  | none => exact tell_eq (.unexpectedCharacter c) h

end Lexemes

section Tokens

def offset (text : String) (t : Token) : Pos.Raw :=
  ⟨text.utf8ByteSize - (bound t.source).byteIdx⟩

def spots (text : String) (ts : List Token) : List Spot :=
  ts.map (fun t => (some t.lexeme, offset text t)) ++ [(none, text.rawEndPos)]

variable {t : Token}

theorem offset_eq (h : text.toList = taken ++ t.source) : offset text t = bound taken := by
  have hsize : text.utf8ByteSize = (bound taken).byteIdx + (bound t.source).byteIdx := by
    rw [← bound_append, ← h, bound_toList, String.byteIdx_rawEndPos]
  rw [offset, hsize, Nat.add_sub_cancel]

theorem token_of_nil (h : text.toList = taken ++ cs) (hcs : Text.afterBlanks cs = []) :
    token text (.at taken cs) = .ok ((none, text.rawEndPos), .at text.toList []) := by
  have hall : taken ++ cs.takeWhile Text.isBlank = text.toList := by
    rw [h]
    conv => rhs; rw [← blanks_append_afterBlanks cs, hcs, List.append_nil]
  have hrest : cs.dropWhile Text.isBlank = [] := hcs
  rw [token, skip_at, hrest, hall, ← bound_toList]
  rfl

theorem token_of_cons (hcs : Text.afterBlanks cs = c :: rest) :
    token text (.at taken cs) =
      (lexeme text c (.at (taken ++ cs.takeWhile Text.isBlank) (c :: rest))).map fun (l, s) =>
        ((some l, bound (taken ++ cs.takeWhile Text.isBlank)), s) := by
  have hrest : cs.dropWhile Text.isBlank = c :: rest := hcs
  rw [token, skip_at, hrest, peek_at]
  cases hread : lexeme text c (.at (taken ++ cs.takeWhile Text.isBlank) (c :: rest)) with
  | error e => simp [hread]; rfl
  | ok r => simp [hread]; rfl

theorem tokens_at {taken cs : List Char} (h : text.toList = taken ++ cs) :
    tokens text (.at taken cs) =
      ((Token.ofChars cs).map (spots text)).mapError Failure.told := by
  rw [tokens]
  cases hcs : Text.afterBlanks cs with
  | nil =>
      rw [token_of_nil h hcs, Token.ofChars_of_nil hcs]
      rfl
  | cons c rest =>
      have hstart : text.toList = taken ++ cs.takeWhile Text.isBlank ++ c :: rest := by
        rw [List.append_assoc, ← hcs, blanks_append_afterBlanks, h]
      have hread := lexeme_at hstart
      rw [token_of_cons hcs, Token.ofChars_of_cons hcs]
      cases hscan : Token.scan c rest with
      | error fault =>
          rw [hscan] at hread
          have hfails : lexeme text c (.at (taken ++ cs.takeWhile Text.isBlank) (c :: rest)) =
              .error (toldAt (c :: rest) fault) := hread
          rw [hfails]
          rfl
      | ok r =>
          rw [hscan] at hread
          obtain ⟨mid, hmid, hread⟩ := hread
          have hle := Text.length_afterBlanks_le cs
          have hshorter : r.rest.length < cs.length := by
            rw [hcs] at hle
            exact Nat.lt_of_lt_of_le r.shorter hle
          have hleft : (Scanner.at (taken ++ cs.takeWhile Text.isBlank ++ mid) r.rest).left.length <
              (Scanner.at taken cs).left.length := by
            rw [Scanner.at, Scanner.at, length_indices, length_indices]
            exact hshorter
          have hnext : text.toList = taken ++ cs.takeWhile Text.isBlank ++ mid ++ r.rest := by
            rw [List.append_assoc _ mid, ← hmid, hstart]
          rw [hread, Outcome.ok_map, Outcome.ok_bind]
          dsimp only
          rw [if_pos hleft, tokens_at hnext]
          have hoffset :
              offset text ⟨r.value, c :: rest⟩ = bound (taken ++ cs.takeWhile Text.isBlank) :=
            offset_eq hstart
          cases Token.ofChars r.rest with
          | error e => rfl
          | ok ts =>
              rw [← hoffset]
              rfl
termination_by cs.length

end Tokens

end RecordQuery.Offset
