import RecordQuery.Proofs.Token.Numeral
import RecordQuery.Proofs.Token.Quoted

namespace RecordQuery.Token

variable {quote c : Char} {cs tail : List Char} {ts : List Token}

theorem scanString_append (tail : List Char) :
    ∀ {cs : List Char} {r : Read Char (List Char) cs}, scanString quote cs = .ok r →
      ∃ hlt, scanString quote (cs ++ tail) = .ok ⟨r.value, r.rest ++ tail, hlt⟩
  | [], r, h => by cases h
  | c :: cs, r, h => by
      rw [scanString.eq_def] at h
      dsimp only at h
      split at h
      · next hclose =>
          cases h
          rw [hclose]
          exact ⟨_, scanString_close quote (cs ++ tail)⟩
      · next hquote =>
          split at h
          · next hslash =>
              subst hslash
              cases cs with
              | nil => cases h
              | cons d cs =>
                  obtain ⟨r', hr, rfl⟩ := Outcome.map_eq_ok.1 h
                  obtain ⟨hlt, hscan⟩ := scanString_append tail hr
                  exact scanString_escape hquote hscan
          · next hslash =>
              obtain ⟨r', hr, rfl⟩ := Outcome.map_eq_ok.1 h
              obtain ⟨hlt, hscan⟩ := scanString_append tail hr
              exact scanString_plain hquote hslash hscan

theorem startsNumeral_append_of_apart (hb : Apart tail) (c : Char) (cs : List Char) :
    startsNumeral c (cs ++ tail) = startsNumeral c cs := by
  cases cs with
  | nil =>
      cases tail with
      | nil => rfl
      | cons d tail =>
          have hdigit : d.isDigit = false := hb.digit d rfl
          simp [startsNumeral, hdigit]
  | cons d cs => rfl

theorem dropTail_append {α : Type} (value : α) (tail : List Char) {taken : Nat}
    (h : taken ≤ cs.length) :
    ∃ hlt, dropTail value c (cs ++ tail) taken = ⟨value, cs.drop taken ++ tail, hlt⟩ := by
  have hdrop : (cs ++ tail).drop taken = cs.drop taken ++ tail :=
    List.drop_append_of_le_length h
  refine ⟨?_, ?_⟩
  · rw [← hdrop, List.length_cons, List.length_drop]
    omega
  · simp only [dropTail, hdrop]

theorem scanOrder_append (plain orEqual : Mark) (hb : Apart tail) :
    ∃ hlt, scanOrder plain orEqual c (cs ++ tail) =
      ⟨(scanOrder plain orEqual c cs).value, (scanOrder plain orEqual c cs).rest ++ tail, hlt⟩ := by
  cases cs with
  | nil => exact ⟨Nat.lt_succ_self _, if_neg fun heq => hb.ne '=' heq (.inr (by decide)) rfl⟩
  | cons d cs =>
      by_cases hd : d = '='
      · subst hd
        exact dropTail_append _ tail (Nat.succ_le_succ (Nat.zero_le _))
      · have hhead (cs : List Char) : (d :: cs).head? ≠ some '=' := fun h => hd (Option.some.inj h)
        have hplain : scanOrder plain orEqual c (d :: cs) = .one (.mark plain) c (d :: cs) :=
          if_neg (hhead cs)
        rw [hplain]
        exact ⟨Nat.lt_succ_self _, if_neg (hhead (cs ++ tail))⟩

theorem scan_append {r : Read Char Lexeme (c :: cs)} (h : scan c cs = .ok r) (hb : Apart tail) :
    ∃ hlt, scan c (cs ++ tail) = .ok ⟨r.value, r.rest ++ tail, hlt⟩ := by
  unfold scan at h ⊢
  -- what is taken for a name, a word or a numeral ends where the rest is apart, as with the text
  simp only [startsNumeral_append_of_apart hb, takeWhile_append_of_head hb.name,
    takeWhile_append_of_head hb.word, numeralTail_append hb] at h ⊢
  by_cases hquote : c = '"' ∨ c = '\''
  · rw [if_pos hquote] at h ⊢
    obtain ⟨q, hq, rfl⟩ := Outcome.map_eq_ok.1 h
    obtain ⟨hlt, hscan⟩ := scanString_append tail hq
    exact ⟨Nat.lt_succ_of_lt hlt, by rw [hscan]; rfl⟩
  rw [if_neg hquote] at h ⊢
  by_cases hat : c = '@'
  · rw [if_pos hat] at h ⊢
    by_cases hname : cs.takeWhile isNameChar = []
    · rw [if_pos hname] at h
      cases h
    · rw [if_neg hname] at h ⊢
      cases h
      obtain ⟨hlt, hdrop⟩ := dropTail_append _ tail (List.takeWhile_sublist _).length_le
      exact ⟨hlt, congrArg Except.ok hdrop⟩
  rw [if_neg hat] at h ⊢
  by_cases hnumeral : startsNumeral c cs = true
  · rw [if_pos hnumeral] at h ⊢
    obtain ⟨l, hl, rfl⟩ := Outcome.map_eq_ok.1 h
    obtain ⟨hlt, hdrop⟩ := dropTail_append l tail (length_numeralTail_le cs)
    exact ⟨hlt, by rw [hl, Outcome.ok_map, hdrop]; rfl⟩
  rw [if_neg hnumeral] at h ⊢
  by_cases hword : isWordStart c = true
  · rw [if_pos hword] at h ⊢
    cases h
    obtain ⟨hlt, hdrop⟩ := dropTail_append _ tail (List.takeWhile_sublist _).length_le
    exact ⟨hlt, congrArg Except.ok hdrop⟩
  rw [if_neg hword] at h ⊢
  by_cases hgreater : c = '>'
  · rw [if_pos hgreater] at h ⊢
    cases h
    obtain ⟨hlt, horder⟩ := scanOrder_append .greater .greaterEqual hb
    exact ⟨hlt, congrArg Except.ok horder⟩
  rw [if_neg hgreater] at h ⊢
  by_cases hless : c = '<'
  · rw [if_pos hless] at h ⊢
    cases h
    obtain ⟨hlt, horder⟩ := scanOrder_append .less .lessEqual hb
    exact ⟨hlt, congrArg Except.ok horder⟩
  rw [if_neg hless] at h ⊢
  cases hmark : mark? c with
  | some m =>
      rw [hmark] at h
      cases h
      exact ⟨Nat.lt_succ_self _, rfl⟩
  | none =>
      rw [hmark] at h
      cases h

theorem ofChars_eq_ok (h : ofChars cs = .ok ts) :
    (Text.afterBlanks cs = [] ∧ ts = []) ∨
    ∃ c rest r more, Text.afterBlanks cs = c :: rest ∧ scan c rest = .ok r ∧
      ofChars r.rest = .ok more ∧ ts = ⟨r.value, c :: rest⟩ :: more := by
  cases hcs : Text.afterBlanks cs with
  | nil =>
      rw [ofChars_of_nil hcs] at h
      cases h
      exact .inl ⟨rfl, rfl⟩
  | cons c rest =>
      rw [ofChars_of_cons hcs] at h
      split at h
      · cases h
      · next r hscan =>
          obtain ⟨more, hmore, rfl⟩ := Outcome.map_eq_ok.1 h
          exact .inr ⟨c, rest, r, more, rfl, hscan, hmore, rfl⟩

theorem afterBlanks_append_of_nil (h : Text.afterBlanks cs = []) (tail : List Char) :
    Text.afterBlanks (cs ++ tail) = Text.afterBlanks tail := by
  unfold Text.afterBlanks at h ⊢
  rw [List.dropWhile_append, h]
  rfl

theorem afterBlanks_append_of_cons {rest : List Char} (h : Text.afterBlanks cs = c :: rest)
    (tail : List Char) : Text.afterBlanks (cs ++ tail) = c :: (rest ++ tail) := by
  unfold Text.afterBlanks at h ⊢
  rw [List.dropWhile_append, h]
  rfl

theorem ofChars_eq_of_afterBlanks {cs' : List Char}
    (h : Text.afterBlanks cs = Text.afterBlanks cs') : ofChars cs = ofChars cs' := by
  cases hcs : Text.afterBlanks cs with
  | nil => rw [ofChars_of_nil hcs, ofChars_of_nil (h.symm.trans hcs)]
  | cons c rest => rw [ofChars_of_cons hcs, ofChars_of_cons (h.symm.trans hcs)]

theorem ofChars_append (h : ofChars cs = .ok ts) (hb : Breaks tail) :
    ∃ front, front.map Token.lexeme = ts.map Token.lexeme ∧
      ofChars (cs ++ tail) = (ofChars tail).map (front ++ ·) := by
  -- the text that is left behind each token is split in the same way
  induction ts generalizing cs with
  | nil =>
      rcases ofChars_eq_ok h with ⟨hblanks, -⟩ | ⟨c, rest, r, more, -, -, -, hcons⟩
      · refine ⟨[], rfl, ?_⟩
        rw [ofChars_eq_of_afterBlanks (afterBlanks_append_of_nil hblanks tail)]
        cases ofChars tail <;> rfl
      · cases hcons
  | cons t ts ih =>
      rcases ofChars_eq_ok h with ⟨-, hnil⟩ | ⟨c, rest, r, more, hblanks, hscan, hmore, hcons⟩
      · cases hnil
      · cases hcons
        obtain ⟨front, hfront, hsplit⟩ := ih hmore
        obtain ⟨hlt, hscan⟩ := scan_append hscan hb.apart
        refine ⟨⟨r.value, c :: (rest ++ tail)⟩ :: front, by simp [hfront], ?_⟩
        rw [ofChars_of_cons (afterBlanks_append_of_cons hblanks tail), hscan]
        dsimp only
        rw [hsplit]
        cases ofChars tail <;> rfl

theorem spells_append (front more : List Token) :
    Spells (front.map Token.lexeme) (front ++ more) more := by
  induction front with
  | nil => rfl
  | cons t front ih => exact Spells.cons ih

theorem writes_of_ofChars (h : ofChars cs = .ok ts) : Writes (ts.map Token.lexeme) cs := by
  intro tail more hb hmore
  obtain ⟨front, hfront, hsplit⟩ := ofChars_append h hb
  rw [hmore] at hsplit
  rw [← hfront]
  exact ⟨front ++ more, hsplit, spells_append front more⟩

theorem Writes.exists_front {ls : List Lexeme} (h : Writes ls cs) (hb : Breaks tail) :
    ∃ front, front.map Token.lexeme = ls ∧
      ofChars (cs ++ tail) = (ofChars tail).map (front ++ ·) := by
  obtain ⟨ts, hts, hs⟩ := h.eof
  obtain ⟨front, hfront, hsplit⟩ := ofChars_append hts hb
  exact ⟨front, hfront.trans (by rw [hs.map_lexeme]; exact List.append_nil ls), hsplit⟩

theorem Writes.append_error {ls : List Lexeme} (h : Writes ls cs) (hb : Breaks tail)
    {e : QueryError} (htail : ofChars tail = .error e) : ofChars (cs ++ tail) = .error e := by
  obtain ⟨front, -, hsplit⟩ := h.exists_front hb
  rw [hsplit, htail]
  rfl

section Leading

variable {m : Mark} {ls : List Lexeme}

/-- The text is split into tokens of the lexemes, whatever follows. -/
def Leads (ls : List Lexeme) (cs : List Char) : Prop :=
  ∀ tail, ∃ front, front.map Token.lexeme = ls ∧
    ofChars (cs ++ tail) = (ofChars tail).map (front ++ ·)

theorem exists_front_mark {tail : List Char} (hm : mark? c = some m)
    (h : ∃ front, front.map Token.lexeme = ls ∧
      ofChars (cs ++ c :: tail) = (ofChars (c :: tail)).map (front ++ ·)) :
    ∃ front, front.map Token.lexeme = ls ++ [.mark m] ∧
      ofChars (cs ++ [c] ++ tail) = (ofChars tail).map (front ++ ·) := by
  obtain ⟨front, hfront, hsplit⟩ := h
  refine ⟨front ++ [⟨.mark m, c :: tail⟩], by simp [hfront], ?_⟩
  rw [List.append_assoc, List.singleton_append, hsplit, ofChars_mark hm]
  cases ofChars tail with
  | error e => rfl
  | ok ts => simp [Outcome.ok_map]

theorem Leads.mark (h : Leads ls cs) (hm : mark? c = some m) :
    Leads (ls ++ [.mark m]) (cs ++ [c]) :=
  fun tail => exists_front_mark hm (h (c :: tail))

theorem Writes.leads (h : Writes ls cs) (hm : mark? c = some m) (hc : c ∈ breakers) :
    Leads (ls ++ [.mark m]) (cs ++ [c]) :=
  fun _ => exists_front_mark hm (h.exists_front (breaks_cons hc))

end Leading

end RecordQuery.Token
