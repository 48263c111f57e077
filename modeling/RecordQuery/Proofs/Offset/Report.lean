import Mathlib
import RecordQuery.Proofs.Cursor.Statement
import RecordQuery.Proofs.Offset.Scanner
import RecordQuery.Proofs.Token.Following
import RecordQuery.Query

namespace RecordQuery.Offset

open String (Pos.Raw)
open Token (scan ofChars blanks_append_afterBlanks)

section Beginnings

/-- A token begins at the source, be it well-formed or not. -/
inductive Begins : List Char → List Char → Prop
  | first {cs : List Char} {c : Char} {rest : List Char} (h : Text.afterBlanks cs = c :: rest) :
      Begins cs (c :: rest)
  | behind {cs : List Char} {c : Char} {rest source : List Char} {r : Read Char Lexeme (c :: rest)}
      (h : Text.afterBlanks cs = c :: rest) (hscan : scan c rest = .ok r)
      (hmore : Begins r.rest source) : Begins cs source

variable {text : String} {cs source rest before : List Char} {c : Char} {t : Token}
  {ts : List Token} {e : QueryError}

theorem exists_before_of_afterBlanks (h : Text.afterBlanks cs = rest) :
    ∃ blanks, cs = blanks ++ rest :=
  ⟨cs.takeWhile Text.isBlank, by rw [← h, blanks_append_afterBlanks]⟩

theorem exists_scanned {r : Read Char Lexeme (c :: rest)} (h : scan c rest = .ok r) :
    ∃ mid, rest = mid ++ r.rest := by
  have htext : (String.ofList (c :: rest)).toList = [] ++ c :: rest := String.toList_ofList
  have hread := lexeme_at htext
  rw [h] at hread
  obtain ⟨mid, hmid, -⟩ := hread
  cases mid with
  | nil =>
      have hshorter := r.shorter
      rw [← List.nil_append r.rest, ← hmid] at hshorter
      exact absurd hshorter (Nat.lt_irrefl _)
  | cons d mid => exact ⟨mid, (List.cons.inj hmid).2⟩

theorem Begins.exists_before (h : Begins cs source) : ∃ before, cs = before ++ source := by
  induction h with
  | first h => exact exists_before_of_afterBlanks h
  | @behind cs c rest source r h hscan hmore ih =>
      obtain ⟨blanks, hcs⟩ := exists_before_of_afterBlanks h
      obtain ⟨mid, hmid⟩ := exists_scanned hscan
      obtain ⟨before, hbefore⟩ := ih
      refine ⟨blanks ++ c :: (mid ++ before), ?_⟩
      calc cs
        _ = blanks ++ c :: rest := hcs
        _ = blanks ++ c :: (mid ++ r.rest) := congrArg (blanks ++ c :: ·) hmid
        _ = blanks ++ c :: (mid ++ before) ++ source := by simp [hbefore]

theorem Begins.ne_nil (h : Begins cs source) : source ≠ [] := by
  induction h with
  | first h => exact List.cons_ne_nil _ _
  | behind h hscan hmore ih => exact ih

theorem Begins.not_blank (h : Begins cs source) : Text.afterBlanks source = source := by
  induction h with
  | @first cs c rest h =>
      have hhead := List.head?_dropWhile_not Text.isBlank cs
      have hdrop : cs.dropWhile Text.isBlank = c :: rest := h
      rw [hdrop] at hhead
      exact Text.afterBlanks_cons_of_not_blank hhead
  | behind h hscan hmore ih => exact ih

theorem begins_of_ofChars (h : ofChars cs = .ok ts) : ∀ t ∈ ts, Begins cs t.source := by
  induction ts generalizing cs with
  | nil => exact List.forall_mem_nil _
  | cons t ts ih =>
      rcases Token.ofChars_eq_ok h with ⟨-, hnil⟩ | ⟨c, rest, r, more, hblanks, hscan, hmore, hcons⟩
      · cases hnil
      · cases hcons
        refine List.forall_mem_cons.2 ⟨.first hblanks, fun t ht => ?_⟩
        exact .behind hblanks hscan (ih hmore t ht)

theorem pairwise_of_ofChars (h : ofChars cs = .ok ts) :
    ts.Pairwise fun t t' => ∃ c mid, t.source = c :: (mid ++ t'.source) := by
  induction ts generalizing cs with
  | nil => exact List.Pairwise.nil
  | cons t ts ih =>
      rcases Token.ofChars_eq_ok h with ⟨-, hnil⟩ | ⟨c, rest, r, more, hblanks, hscan, hmore, hcons⟩
      · cases hnil
      · cases hcons
        refine List.pairwise_cons.2 ⟨fun t' ht' => ?_, ih hmore⟩
        obtain ⟨mid, hmid⟩ := exists_scanned hscan
        obtain ⟨before, hbefore⟩ := (begins_of_ofChars hmore t' ht').exists_before
        refine ⟨c, mid ++ before, congrArg (c :: ·) (hmid.trans ?_)⟩
        rw [hbefore, List.append_assoc]

theorem begins_of_error {cs : List Char} {e : QueryError} (h : ofChars cs = .error e) :
    ∃ c rest fault, Begins cs (c :: rest) ∧ scan c rest = .error fault ∧
      e = .malformed fault (QueryError.fragment (c :: rest)) := by
  cases hcs : Text.afterBlanks cs with
  | nil =>
      rw [Token.ofChars_of_nil hcs] at h
      cases h
  | cons c rest =>
      rw [Token.ofChars_of_cons hcs] at h
      split at h
      · next fault hscan =>
          cases h
          exact ⟨c, rest, fault, .first hcs, hscan, rfl⟩
      · next r hscan =>
          have hle := Text.length_afterBlanks_le cs
          have hshorter : r.rest.length < cs.length := by
            rw [hcs] at hle
            exact Nat.lt_of_lt_of_le r.shorter hle
          obtain ⟨d, left, fault, hbegins, hfault, he⟩ := begins_of_error (Outcome.map_eq_error.1 h)
          exact ⟨d, left, fault, .behind hcs hscan hbegins, hfault, he⟩
termination_by cs.length

end Beginnings

section Runs

def report {α : Type} (text : String) (all : List Spot) : Cursor.Halt → Attempt α
  | .malformed fault place =>
      match all[min place (all.length - 1)]? with
      | some (_, p) => tell text fault ⟨min p.byteIdx text.utf8ByteSize⟩
      | none => .error (.broken .beyond)
  | .refused e _ => .error (.told e)
  | .broken b => .error (.broken b)

def run (limits : Limits) (text : String) : Attempt Written :=
  match Verb.ofKeyword? (String.ofList (text.toList.take Written.verbLength)) with
  | none => do
      let shown ← fragment text
      .error (.told (.unknownCommand shown))
  | some verb => do
      let all ← tokens text (.start text)
      match Cursor.statement (all.map Prod.fst) limits verb ⟨0, 0, 0⟩ with
      | .ok (w, _) => .ok w
      | .error halt => report text all halt

def runValue (text : String) : Attempt Value := do
  let all ← tokens text (.start text)
  match Cursor.single (all.map Prod.fst) {} ⟨0, 0, 0⟩ with
  | .ok (.param name, _) =>
      let shown ← fragment (String.ofList ('@' :: name.toList))
      .error (.told (.malformed .literalParameter shown))
  | .ok (v, _) => .ok v
  | .error halt => report text all halt

variable {text : String} {cs before rest : List Char} {ts : List Token} {e : QueryError}

theorem tokens_eq (text : String) :
    tokens text (.start text) = ((ofChars text.toList).map (spots text)).mapError Failure.told :=
  tokens_at (List.nil_append _).symm

theorem tokens_of_ok (h : ofChars text.toList = .ok ts) :
    tokens text (.start text) = .ok (spots text ts) := by
  rw [tokens_eq, h]
  rfl

theorem tokens_of_error (h : ofChars text.toList = .error e) :
    tokens text (.start text) = .error (.told e) := by
  rw [tokens_eq, h]
  rfl

theorem kindsOf_eq (text : String) (ts : List Token) :
    (spots text ts).map Prod.fst = Cursor.kindsOf ts := by
  simp [spots, Cursor.kindsOf]

theorem length_spots (text : String) (ts : List Token) :
    (spots text ts).length = ts.length + 1 := by
  simp [spots]

theorem getElem?_spots (h : ofChars text.toList = .ok ts) {place : Nat} (hle : place ≤ ts.length) :
    ∃ l before, (spots text ts)[place]? = some (l, bound before) ∧
      text.toList = before ++ Token.sourceOf (ts.drop place) := by
  rcases Nat.lt_or_eq_of_le hle with hlt | rfl
  · obtain ⟨before, hbefore⟩ :=
      (begins_of_ofChars h ts[place] (List.getElem_mem hlt)).exists_before
    refine ⟨some ts[place].lexeme, before, ?_, ?_⟩
    · rw [spots, List.getElem?_append_left (by simpa using hlt), List.getElem?_map,
        List.getElem?_eq_getElem hlt, Option.map_some, offset_eq hbefore]
    · rw [List.drop_eq_getElem_cons hlt]
      exact hbefore
  · refine ⟨none, text.toList, ?_, ?_⟩
    · rw [bound_toList]
      simp [spots]
    · rw [List.drop_length]
      exact (List.append_nil _).symm

theorem report_eq {α : Type} (h : ofChars text.toList = .ok ts) {halt : Cursor.Halt}
    (hplaced : halt.placed ts = some e) :
    (report text (spots text ts) halt : Attempt α) = .error (.told e) := by
  cases halt with
  | malformed fault place =>
      rw [Cursor.Halt.placed] at hplaced
      split at hplaced
      · next hle =>
          obtain ⟨l, before, hspot, htext⟩ := getElem?_spots h hle
          have hplace : min place ((spots text ts).length - 1) = place := by
            rw [length_spots, Nat.add_sub_cancel, Nat.min_eq_left hle]
          have hbound : min (bound before).byteIdx text.utf8ByteSize = (bound before).byteIdx :=
            Nat.min_eq_left (isValid_bound htext).le_rawEndPos
          cases hplaced
          rw [report, hplace, hspot]
          dsimp only
          rw [hbound]
          exact tell_eq fault htext
      · cases hplaced
  | refused e' he' =>
      cases hplaced
      rfl
  | broken b => cases hplaced

theorem run_eq (limits : Limits) (text : String) :
    run limits text = (Written.ofText limits text).mapError Failure.told := by
  rw [run, Written.ofText]
  cases Verb.ofKeyword? (String.ofList (text.toList.take Written.verbLength)) with
  | none =>
      have hfragment := fragment_ofList text.toList
      rw [String.ofList_toList] at hfragment
      simp only [hfragment]
      rfl
  | some verb =>
      cases hts : ofChars text.toList with
      | error e =>
          simp only [tokens_of_error hts]
          rfl
      | ok ts =>
          have hread := Cursor.agrees_whole limits verb ts
          simp only [tokens_of_ok hts, Outcome.ok_bind, kindsOf_eq]
          cases hstatement : Written.readStatement limits verb ts with
          | ok w =>
              rw [hstatement] at hread
              obtain ⟨c, hc, -⟩ := hread
              rw [hc]
              rfl
          | error e =>
              rw [hstatement] at hread
              obtain ⟨halt, hhalt, hplaced⟩ := hread
              rw [hhalt]
              exact report_eq hts hplaced

theorem literal_eq (text : String) :
    Written.literal text = (do
      let ts ← ofChars text.toList
      match ← Cursor.readSingle {} ts with
      | .param name =>
          .error (.malformed .literalParameter (QueryError.fragment ('@' :: name.toList)))
      | v => .ok v) := by
  simp only [Cursor.readSingle, bind_assoc]
  rfl

theorem runValue_eq (text : String) :
    runValue text = (Written.literal text).mapError Failure.told := by
  rw [runValue, literal_eq]
  cases hts : ofChars text.toList with
  | error e =>
      rw [tokens_of_error hts]
      rfl
  | ok ts =>
      have hread : Cursor.Agrees ts Cursor.toEnd ⟨0, 0, 0⟩
          (Cursor.single (Cursor.kindsOf ts) {} ⟨0, 0, 0⟩) (Cursor.readSingle {} ts) :=
        Cursor.agrees_single Cursor.stands_start rfl
      simp only [tokens_of_ok hts, Outcome.ok_bind, kindsOf_eq]
      cases hsingle : Cursor.readSingle {} ts with
      | error e =>
          rw [hsingle] at hread
          obtain ⟨halt, hhalt, hplaced⟩ := hread
          rw [hhalt]
          exact report_eq hts hplaced
      | ok v =>
          rw [hsingle] at hread
          obtain ⟨c, hc, -⟩ := hread
          rw [hc]
          cases v with
          | param name =>
              dsimp only [Cursor.toEnd]
              rw [fragment_ofList]
              rfl
          | _ => rfl

end Runs

section Naming

variable {field : String → String} {e : QueryError}

theorem isMalformed_of_ofColumn {c : Comparison} {column : Column}
    (h : Condition.ofColumn c column = .error e) : e.isMalformed = false := by
  rw [Condition.ofColumn] at h
  split at h
  · cases h
  · cases h
    rfl

mutual

theorem isMalformed_of_resolve : ∀ {clause : Clause} {e : QueryError},
    clause.resolve field = .error e → e.isMalformed = false
  | .compare name c v, e, h => isMalformed_of_ofColumn h
  | .not inner, e, h => isMalformed_of_resolve (Outcome.map_eq_error.1 h)
  | .chain first rest, e, h => by
      rw [Clause.resolve] at h
      cases hfirst : first.resolve field with
      | error e' =>
          rw [hfirst] at h
          cases h
          exact isMalformed_of_resolve hfirst
      | ok left =>
          rw [hfirst] at h
          exact isMalformed_of_resolveRest h

theorem isMalformed_of_resolveRest : ∀ {rest : List (Connective × Clause)} {left : Condition}
    {e : QueryError}, Clause.resolveRest field left rest = .error e → e.isMalformed = false
  | [], left, e, h => by cases h
  | (c, next) :: rest, left, e, h => by
      rw [Clause.resolveRest] at h
      cases hnext : next.resolve field with
      | error e' =>
          rw [hnext] at h
          cases h
          exact isMalformed_of_resolve hnext
      | ok right =>
          rw [hnext] at h
          exact isMalformed_of_resolveRest h

end

theorem isMalformed_of_resolveSome {clause : Option Clause}
    (h : Clause.resolveSome field clause = .error e) : e.isMalformed = false := by
  cases clause with
  | none => cases h
  | some clause => exact isMalformed_of_resolve (Outcome.map_eq_error.1 h)

theorem isMalformed_of_ofWritten {naming : Naming} {w : Written}
    (h : Query.ofWritten naming w = .error e) : e.isMalformed = false := by
  have h := Outcome.map_eq_error.1 h
  cases w with
  | select q =>
      cases hwhere : Clause.resolveSome (naming.field q.entity) q.condition with
      | error e' =>
          simp only [Written.resolve, hwhere] at h
          cases h
          exact isMalformed_of_resolveSome hwhere
      | ok condition =>
          simp only [Written.resolve, hwhere] at h
          cases h
  | delete q =>
      cases hwhere : Clause.resolveSome (naming.field q.entity) q.condition with
      | error e' =>
          simp only [Written.resolve, hwhere] at h
          cases h
          exact isMalformed_of_resolveSome hwhere
      | ok condition =>
          simp only [Written.resolve, hwhere] at h
          cases h
  | insert r ttl => cases h
  | update r => cases h

end Naming

section Reports

variable {text : String} {rest : List Char} {ts : List Token} {t : Token} {fault : Fault}
  {shown : String}

theorem isValid_of_mem_spots (h : ofChars text.toList = .ok ts) :
    ∀ s ∈ spots text ts, s.2.IsValid text := by
  intro s hs
  rcases List.mem_append.1 hs with hmem | hend
  · obtain ⟨t, ht, rfl⟩ := List.mem_map.1 hmem
    obtain ⟨before, hbefore⟩ := (begins_of_ofChars h t ht).exists_before
    rw [offset_eq hbefore]
    exact isValid_bound hbefore
  · obtain rfl := List.mem_singleton.1 hend
    exact String.Pos.Raw.isValid_rawEndPos

theorem offset_lt_end (h : Begins text.toList t.source) : offset text t < text.rawEndPos := by
  obtain ⟨before, hbefore⟩ := h.exists_before
  obtain ⟨c, rest, hsource⟩ := List.exists_cons_of_ne_nil h.ne_nil
  rw [offset_eq hbefore, ← bound_toList, hbefore, hsource]
  exact bound_lt_append before c rest

theorem pairwise_spots (h : ofChars text.toList = .ok ts) :
    (spots text ts).Pairwise fun s s' => s.2 < s'.2 := by
  have hbegins := begins_of_ofChars h
  refine List.pairwise_append.2 ⟨?_, List.pairwise_singleton _ _, ?_⟩
  · rw [List.pairwise_map]
    refine (pairwise_of_ofChars h).imp_of_mem fun {t t'} ht ht' hbehind => ?_
    obtain ⟨before, hbefore⟩ := (hbegins t ht).exists_before
    obtain ⟨c, mid, hmid⟩ := hbehind
    have hbefore' : text.toList = before ++ c :: mid ++ t'.source := by
      rw [hbefore, hmid, List.append_assoc]
      rfl
    rw [offset_eq hbefore, offset_eq hbefore']
    exact bound_lt_append before c mid
  · intro s hs s' hs'
    obtain ⟨t, ht, rfl⟩ := List.mem_map.1 hs
    obtain rfl := List.mem_singleton.1 hs'
    exact offset_lt_end (hbegins t ht)

theorem fragment_eq (h : Text.afterBlanks rest = rest) :
    QueryError.fragment rest =
      if 32 < rest.length then String.ofList (rest.take 32) ++ "..." else String.ofList rest := by
  rw [QueryError.fragment, h]
  rfl

/-- The fragment stands at the offset of a token, of the end or of what is no token. -/
def Shows (text : String) (fault : Fault) (shown : String) : Prop :=
  ∃ before rest, text.toList = before ++ rest ∧
    ((∃ ts l, ofChars text.toList = .ok ts ∧ (l, bound before) ∈ spots text ts) ∨
      ∃ c cs, rest = c :: cs ∧ Begins text.toList rest ∧ scan c cs = .error fault) ∧
    shown = if 32 < rest.length then String.ofList (rest.take 32) ++ "..." else String.ofList rest

theorem shows_of_ofChars (h : ofChars text.toList = .error (.malformed fault shown)) :
    Shows text fault shown := by
  obtain ⟨c, cs, fault', hbegins, hscan, he⟩ := begins_of_error h
  cases he
  obtain ⟨before, hbefore⟩ := hbegins.exists_before
  exact ⟨before, c :: cs, hbefore, .inr ⟨c, cs, rfl, hbegins, hscan⟩, fragment_eq hbegins.not_blank⟩

theorem shows_of_placed (h : ofChars text.toList = .ok ts) {halt : Cursor.Halt}
    (hplaced : halt.placed ts = some (.malformed fault shown)) : Shows text fault shown := by
  cases halt with
  | malformed fault' place =>
      rw [Cursor.Halt.placed] at hplaced
      split at hplaced
      · next hle =>
          obtain ⟨l, before, hspot, hbefore⟩ := getElem?_spots h hle
          have hrest : Text.afterBlanks (Token.sourceOf (ts.drop place)) =
              Token.sourceOf (ts.drop place) := by
            cases hdrop : ts.drop place with
            | nil => rfl
            | cons t more =>
                have ht : t ∈ ts := List.mem_of_mem_drop (hdrop ▸ List.mem_cons_self)
                exact (begins_of_ofChars h t ht).not_blank
          cases hplaced
          exact ⟨before, _, hbefore, .inl ⟨ts, l, h, List.mem_of_getElem? hspot⟩, fragment_eq hrest⟩
      · cases hplaced
  | refused e he =>
      cases hplaced
      cases he
  | broken b => cases hplaced

theorem shows_of_ofText {limits : Limits}
    (h : Written.ofText limits text = .error (.malformed fault shown)) :
    Shows text fault shown := by
  rw [Written.ofText] at h
  cases hverb : Verb.ofKeyword? (String.ofList (text.toList.take Written.verbLength)) with
  | none =>
      rw [hverb] at h
      cases h
  | some verb =>
      rw [hverb] at h
      cases hts : ofChars text.toList with
      | error e =>
          rw [hts] at h
          cases h
          exact shows_of_ofChars hts
      | ok ts =>
          rw [hts] at h
          have hread := Cursor.agrees_whole limits verb ts
          have hfails : Written.readStatement limits verb ts = .error (.malformed fault shown) := h
          rw [hfails] at hread
          obtain ⟨halt, -, hplaced⟩ := hread
          exact shows_of_placed hts hplaced

theorem shows_of_parse {limits : Limits} {naming : Naming}
    (h : Query.parse limits naming text = .error (.malformed fault shown)) :
    Shows text fault shown := by
  cases hw : Written.ofText limits text with
  | error e =>
      rw [Query.parse, hw] at h
      cases h
      exact shows_of_ofText hw
  | ok w =>
      rw [Query.parse, hw] at h
      cases isMalformed_of_ofWritten h

/-- Tokens stand at boundaries of characters, each behind the one before it and all before the end.
An error in a query shows the text from a token on, or from what is no token, or nothing at the end;
and no part of the text that is taken on the way is missing or torn. -/
theorem reports_begin_at_tokens (limits : Limits) (naming : Naming) (text : String) :
    tokens text (.start text) = ((ofChars text.toList).map (spots text)).mapError Failure.told ∧
    (∀ ts, ofChars text.toList = .ok ts →
      (∀ s ∈ spots text ts, s.2.IsValid text) ∧
      (spots text ts).Pairwise fun s s' => s.2 < s'.2) ∧
    (∀ fault shown, Query.parse limits naming text = .error (.malformed fault shown) →
      Shows text fault shown) ∧
    run limits text = (Written.ofText limits text).mapError Failure.told :=
  ⟨tokens_eq text, fun _ h => ⟨isValid_of_mem_spots h, pairwise_spots h⟩,
    fun _ _ => shows_of_parse, run_eq limits text⟩

theorem exists_tokens_behind_wide :
    ∃ ts, ofChars "select a from é where = 1".toList = .ok ts := ⟨_, by cbv⟩

theorem report_behind_wide_characters :
    Query.parse {} .identity "select a from é where = 1" =
      .error (.malformed (.expected "field name" "'='") "= 1") ∧
    Shows "select a from é where = 1" (.expected "field name" "'='") "= 1" ∧
    ∃ ts, ofChars "select a from é where = 1".toList = .ok ts ∧
      (∀ s ∈ spots "select a from é where = 1" ts, s.2.IsValid "select a from é where = 1") ∧
      (spots "select a from é where = 1" ts).Pairwise fun s s' => s.2 < s'.2 := by
  have hparse : Query.parse {} .identity "select a from é where = 1" =
      .error (.malformed (.expected "field name" "'='") "= 1") := by cbv
  have hall := reports_begin_at_tokens {} .identity "select a from é where = 1"
  obtain ⟨ts, hts⟩ := exists_tokens_behind_wide
  exact ⟨hparse, hall.2.2.1 _ _ hparse, ts, hts, hall.2.1 ts hts⟩

end Reports

section Breakdowns

open Cursor (Stands Agrees)

theorem eq_end_of_statement {limits : Limits} {verb : Verb} {ts : List Token} {w : Written}
    {c : Cursor}
    (h : Cursor.statement (Cursor.kindsOf ts) limits verb ⟨0, 0, 0⟩ = .ok (w, c)) :
    c = ⟨ts.length, 0, 0⟩ := by
  have hread := Cursor.agrees_whole limits verb ts
  rw [h] at hread
  cases hstatement : Written.readStatement limits verb ts with
  | ok w' =>
      rw [hstatement] at hread
      obtain ⟨c', hc, hreached⟩ := hread
      cases hc
      exact hreached.eq_end
  | error e =>
      rw [hstatement] at hread
      obtain ⟨halt, hhalt, -⟩ := hread
      cases hhalt

/-- A text is read without a breakdown, be the limits what they may: by the scanner, by the steps
that read a statement or a single value, and by those that read a value or a chain of conditions
anywhere within it. Each agrees with the reader, and leaves the nesting as it was. -/
theorem reading_never_breaks_down (limits : Limits) (text : String) :
    tokens text (.start text) = ((ofChars text.toList).map (spots text)).mapError Failure.told ∧
    run limits text = (Written.ofText limits text).mapError Failure.told ∧
    runValue text = (Written.literal text).mapError Failure.told ∧
    (∀ verb ts, Agrees ts Cursor.toEnd ⟨0, 0, 0⟩
      (Cursor.statement (Cursor.kindsOf ts) limits verb ⟨0, 0, 0⟩)
      (Written.readStatement limits verb ts)) ∧
    (∀ verb ts w c, Cursor.statement (Cursor.kindsOf ts) limits verb ⟨0, 0, 0⟩ = .ok (w, c) →
      c = ⟨ts.length, 0, 0⟩) ∧
    (∀ all ts c, Stands all ts c →
      Agrees all Cursor.readView c (Cursor.value (Cursor.kindsOf all) limits c)
        (Written.readValue limits c.literalDepth ts)) ∧
    ∀ all ts c, Stands all ts c → c.literalDepth = 0 →
      Agrees all (fun r => (Written.chainOf r.value.1 r.value.2, r.rest)) c
        (Cursor.chain (Cursor.kindsOf all) limits c) (Written.readChain limits c.depth ts) := by
  refine ⟨tokens_eq text, run_eq limits text, runValue_eq text, ?_, ?_, ?_, ?_⟩
  · exact fun verb ts => Cursor.agrees_whole limits verb ts
  · exact fun verb ts w c => eq_end_of_statement
  · exact fun all ts c h => Cursor.agrees_value h rfl
  · exact fun all ts c h hliteral => Cursor.agrees_chain h rfl hliteral

-- the tokens of `delete from t where (a = [1])`
def bracketed : List Token :=
  [.word "delete", .word "from", .word "t", .word "where", .mark .openParen, .word "a",
    .mark .equal, .mark .openBracket, .int 1, .mark .closeBracket, .mark .closeParen].map (⟨·, []⟩)

theorem statement_bracketed :
    Cursor.statement (Cursor.kindsOf bracketed) {} .delete ⟨0, 0, 0⟩ =
      .ok (.delete ⟨"t", [], some (.compare "a" .equal (.list [.int 1]))⟩, ⟨11, 0, 0⟩) := by
  cbv

theorem unfinished_group_read :
    run {} "select * from t where (a = 1 and" =
      .error (.told (.malformed (.expected "field name" "end of query") "")) ∧
    (∃ w c, Cursor.statement (Cursor.kindsOf bracketed) {} .delete ⟨0, 0, 0⟩ = .ok (w, c) ∧
      c = ⟨bracketed.length, 0, 0⟩) ∧
    Agrees bracketed Cursor.readView ⟨7, 0, 0⟩ (Cursor.value (Cursor.kindsOf bracketed) {} ⟨7, 0, 0⟩)
      (Written.readValue {} 0 (bracketed.drop 7)) ∧
    Agrees bracketed (fun r => (Written.chainOf r.value.1 r.value.2, r.rest)) ⟨4, 0, 0⟩
      (Cursor.chain (Cursor.kindsOf bracketed) {} ⟨4, 0, 0⟩)
      (Written.readChain {} 0 (bracketed.drop 4)) := by
  have hall := reading_never_breaks_down {} "select * from t where (a = 1 and"
  have hstands (n : Nat) (hn : n ≤ bracketed.length) :
      Stands bracketed (bracketed.drop n) ⟨n, 0, 0⟩ :=
    ⟨bracketed.take n, (List.take_append_drop n bracketed).symm, by simp [hn]⟩
  refine ⟨?_, ⟨_, _, statement_bracketed, hall.2.2.2.2.1 _ _ _ _ statement_bracketed⟩,
    hall.2.2.2.2.2.1 _ _ _ (hstands 7 (by decide)),
    hall.2.2.2.2.2.2 _ _ _ (hstands 4 (by decide)) rfl⟩
  rw [hall.2.1]
  cbv

end Breakdowns

end RecordQuery.Offset
