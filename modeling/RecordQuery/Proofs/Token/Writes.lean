import RecordQuery.Proofs.Grammar.Spelling
import RecordQuery.Proofs.Token.Character

/-!
Texts that are split into given lexemes wherever they stand before a breaker or the end. They are
put together piece by piece: blanks and marks go in front of anything, and a piece that ends with a
word or a number goes in front of what begins with a breaker.
-/

namespace RecordQuery.Token

theorem ofChars_of_nil {cs : List Char} (h : Text.afterBlanks cs = []) : ofChars cs = .ok [] := by
  rw [ofChars]
  split
  · rfl
  · next hcons =>
      rw [h] at hcons
      cases hcons

theorem ofChars_of_cons {c : Char} {cs rest : List Char} (h : Text.afterBlanks cs = c :: rest) :
    ofChars cs = match scan c rest with
      | .error fault => .error (.malformed fault (QueryError.fragment (c :: rest)))
      | .ok r => (ofChars r.rest).map (⟨r.value, c :: rest⟩ :: ·) := by
  rw [ofChars]
  split
  · next hnil =>
      rw [h] at hnil
      cases hnil
  · next hcons =>
      rw [h] at hcons
      cases hcons
      rfl

theorem ofChars_of_blank {c : Char} (h : Text.isBlank c = true) (cs : List Char) :
    ofChars (c :: cs) = ofChars cs := by
  have hafter : Text.afterBlanks (c :: cs) = Text.afterBlanks cs :=
    Text.afterBlanks_cons_of_blank h
  cases hcs : Text.afterBlanks cs with
  | nil => rw [ofChars_of_nil hcs, ofChars_of_nil (hafter.trans hcs)]
  | cons d rest => rw [ofChars_of_cons hcs, ofChars_of_cons (hafter.trans hcs)]

theorem ofChars_of_scan {c : Char} {cs : List Char} {r : Read Char Lexeme (c :: cs)}
    (hblank : Text.isBlank c = false) (h : scan c cs = .ok r) :
    ofChars (c :: cs) = (ofChars r.rest).map (⟨r.value, c :: cs⟩ :: ·) := by
  rw [ofChars_of_cons (Text.afterBlanks_cons_of_not_blank hblank), h]

/-- The text is split into the lexemes, whatever follows behind a breaker. -/
def Writes (ls : List Lexeme) (cs : List Char) : Prop :=
  ∀ tail ts, Breaks tail → ofChars tail = .ok ts →
    ∃ ts', ofChars (cs ++ tail) = .ok ts' ∧ Spells ls ts' ts

namespace Writes

variable {ls ls' : List Lexeme} {cs cs' : List Char}

theorem nil : Writes [] [] := fun _ ts _ ht => ⟨ts, ht, rfl⟩

theorem append (h : Writes ls cs) (h' : Writes ls' cs') (hb : Breaks cs') :
    Writes (ls ++ ls') (cs ++ cs') := by
  intro tail ts htail ht
  obtain ⟨mid, hmid, hs'⟩ := h' tail ts htail ht
  obtain ⟨ts', hts', hs⟩ := h (cs' ++ tail) mid (hb.append htail) hmid
  exact ⟨ts', by rw [List.append_assoc, hts'], hs.append hs'⟩

theorem blank (h : Writes ls cs) : Writes ls (' ' :: cs) := by
  intro tail ts htail ht
  rw [List.cons_append, ofChars_of_blank (by decide)]
  exact h tail ts htail ht

theorem single {c : Char} {l : Lexeme} (hblank : Text.isBlank c = false)
    (h : ∀ tail, Breaks tail → ∃ hlt, scan c (cs ++ tail) = .ok ⟨l, tail, hlt⟩) :
    Writes [l] (c :: cs) := by
  intro tail ts htail ht
  obtain ⟨hlt, hscan⟩ := h tail htail
  rw [List.cons_append, ofChars_of_scan hblank hscan, ht]
  exact ⟨_, rfl, _, _, rfl, rfl⟩

theorem cons {c : Char} {l : Lexeme} (hblank : Text.isBlank c = false)
    (h : ∀ tail, ∃ hlt, scan c tail = .ok ⟨l, tail, hlt⟩) (hls : Writes ls cs) :
    Writes (l :: ls) (c :: cs) := by
  intro tail ts htail ht
  obtain ⟨ts', hts', hs⟩ := hls tail ts htail ht
  obtain ⟨hlt, hscan⟩ := h (cs ++ tail)
  rw [List.cons_append, ofChars_of_scan hblank hscan, hts']
  exact ⟨_, rfl, _, _, rfl, hs⟩

theorem eof (h : Writes ls cs) : ∃ ts, ofChars cs = .ok ts ∧ Spells ls ts [] := by
  have hnil : ofChars [] = .ok [] := by
    rw [ofChars]
    rfl
  obtain ⟨ts, hts, hs⟩ := h [] [] breaks_nil hnil
  rw [List.append_nil] at hts
  exact ⟨ts, hts, hs⟩

end Writes

theorem length_lt_cons_append {c : Char} {cs tail : List Char} :
    tail.length < (c :: (cs ++ tail)).length := by
  simp only [List.length_cons, List.length_append]
  omega

section Marks

def markers : List Char := ['(', ')', '\x7b', '\x7d', '[', ']', ',', ':', '=', '*']

theorem isWordStart_of_marker : ∀ c ∈ markers, isWordStart c = false :=
  forall_mem_of_all (by decide)

theorem isBlank_of_marker : ∀ c ∈ markers, Text.isBlank c = false :=
  forall_mem_of_all (by decide)

theorem startsNumeral_of_marker (cs : List Char) :
    ∀ c ∈ markers, startsNumeral c cs = false := by
  intro c hc
  have hsign : ∀ c ∈ markers, (c.isDigit || c = '-' || c = '+') = false :=
    forall_mem_of_all (by decide)
  have hc := hsign c hc
  simp only [Bool.or_eq_false_iff] at hc
  simp [startsNumeral, hc]

theorem mem_markers_of_mark? {c : Char} {m : Mark} (h : mark? c = some m) : c ∈ markers := by
  unfold mark? at h
  split at h <;> first | decide | cases h

theorem scan_of_mark? {c : Char} {m : Mark} (h : mark? c = some m) (cs : List Char) :
    scan c cs = .ok (.one (.mark m) c cs) := by
  have hmem := mem_markers_of_mark? h
  have hword := isWordStart_of_marker c hmem
  have hquote : ¬ (c = '"' ∨ c = '\'') := by
    rintro (rfl | rfl) <;> exact absurd hmem (by decide)
  have hat : c ≠ '@' := by
    rintro rfl
    exact absurd hmem (by decide)
  have hnumeral := startsNumeral_of_marker cs c hmem
  have horder : c ≠ '>' ∧ c ≠ '<' := by
    constructor <;> rintro rfl <;> exact absurd hmem (by decide)
  rw [scan, if_neg hquote, if_neg hat, hnumeral, hword]
  simp only [horder, h, Bool.false_eq_true, if_false]

theorem ofChars_mark {c : Char} {m : Mark} (h : mark? c = some m) (cs : List Char) :
    ofChars (c :: cs) = (ofChars cs).map (⟨.mark m, c :: cs⟩ :: ·) :=
  ofChars_of_scan (isBlank_of_marker c (mem_markers_of_mark? h)) (scan_of_mark? h cs)

theorem Writes.mark {c : Char} {m : Mark} {ls : List Lexeme} {cs : List Char}
    (h : mark? c = some m) (hls : Writes ls cs) : Writes (.mark m :: ls) (c :: cs) :=
  hls.cons (isBlank_of_marker c (mem_markers_of_mark? h)) fun tail =>
    ⟨_, scan_of_mark? h tail⟩

theorem head_ne_equal {cs : List Char} (h : Breaks cs) : cs.head? ≠ some '=' := fun heq =>
  absurd (h _ heq) (by decide)

theorem Writes.greater : Writes [.mark .greater] ['>'] :=
  .single (by decide) fun tail htail =>
    ⟨Nat.lt_succ_self _, congrArg Except.ok (if_neg (head_ne_equal htail))⟩

theorem Writes.less : Writes [.mark .less] ['<'] :=
  .single (by decide) fun tail htail =>
    ⟨Nat.lt_succ_self _, congrArg Except.ok (if_neg (head_ne_equal htail))⟩

theorem Writes.greaterEqual : Writes [.mark .greaterEqual] ['>', '='] :=
  .single (by decide) fun _ _ => ⟨length_lt_cons_append, rfl⟩

theorem Writes.lessEqual : Writes [.mark .lessEqual] ['<', '='] :=
  .single (by decide) fun _ _ => ⟨length_lt_cons_append, rfl⟩

end Marks

section Names

def IsWord (w : String) : Prop :=
  ∃ c cs, w.toList = c :: cs ∧ isWordStart c = true ∧ ∀ d ∈ cs, isWordChar d = true

theorem isWord_iff {w : String} : IsWord w ↔
    w.toList.head?.any isWordStart = true ∧ w.toList.tail.all isWordChar = true := by
  unfold IsWord
  cases w.toList with
  | nil => simp
  | cons c cs =>
      constructor
      · rintro ⟨d, ds, h, hstart, hall⟩
        cases h
        exact ⟨hstart, List.all_eq_true.2 hall⟩
      · rintro ⟨hstart, hall⟩
        exact ⟨c, cs, rfl, hstart, List.all_eq_true.1 hall⟩

instance (w : String) : Decidable (IsWord w) := decidable_of_iff' _ isWord_iff

def IsName (n : String) : Prop := n.toList ≠ [] ∧ ∀ c ∈ n.toList, isNameChar c = true

theorem scan_word {w : String} (h : IsWord w) :
    ∃ c cs, w.toList = c :: cs ∧ Text.isBlank c = false ∧
      ∀ tail, Breaks tail → ∃ hlt, scan c (cs ++ tail) = .ok ⟨.word w, tail, hlt⟩ := by
  obtain ⟨c, cs, hw, hstart, hcs⟩ := h
  refine ⟨c, cs, hw, isBlank_of_isWordStart hstart, fun tail htail => ?_⟩
  have hquote : ¬ (c = '"' ∨ c = '\'') := by
    rintro (rfl | rfl) <;> exact absurd hstart (by decide)
  have hat : c ≠ '@' := ne_of_isWordStart hstart (by decide)
  have htake : (cs ++ tail).takeWhile isWordChar = cs := by
    rw [takeWhile_append_of_head htail.apart.word, List.takeWhile_eq_self_iff.2 hcs]
  have hname : String.ofList (c :: cs) = w := by rw [← hw, String.ofList_toList]
  rw [scan, if_neg hquote, if_neg hat, startsNumeral_of_isWordStart hstart, hstart]
  simp only [htake, hname, Bool.false_eq_true, if_false, if_true, dropTail, List.drop_left]
  exact ⟨length_lt_cons_append, trivial⟩

theorem ofChars_word {w : String} {tail : List Char} (h : IsWord w) (htail : Breaks tail) :
    ofChars (w.toList ++ tail) = (ofChars tail).map (⟨.word w, w.toList ++ tail⟩ :: ·) := by
  obtain ⟨c, cs, hw, hblank, hscan⟩ := scan_word h
  obtain ⟨hlt, hscan⟩ := hscan tail htail
  rw [hw, List.cons_append, ofChars_of_scan hblank hscan]

theorem Writes.word {w : String} (h : IsWord w) : Writes [.word w] w.toList := by
  obtain ⟨c, cs, hw, hblank, hscan⟩ := scan_word h
  rw [hw]
  exact .single hblank hscan

theorem scan_param {n : String} {tail : List Char} (h : IsName n) (htail : Breaks tail) :
    ∃ hlt, scan '@' (n.toList ++ tail) = .ok ⟨.param n, tail, hlt⟩ := by
  obtain ⟨hne, hall⟩ := h
  have htake : (n.toList ++ tail).takeWhile isNameChar = n.toList := by
    rw [takeWhile_append_of_head htail.apart.name, List.takeWhile_eq_self_iff.2 hall]
  have hquote : ¬ ('@' = '"' ∨ '@' = '\'') := by decide
  rw [scan, if_neg hquote, if_pos rfl]
  simp only [htake, if_neg hne, String.ofList_toList, dropTail, List.drop_left]
  exact ⟨length_lt_cons_append, trivial⟩

theorem Writes.param {n : String} (h : IsName n) : Writes [.param n] ('@' :: n.toList) :=
  .single (by decide) fun _ htail => scan_param h htail

def Spelled : Lexeme → Prop
  | .word w => IsWord w
  | .param n => IsName n
  | _ => True

theorem numeralValue_eq_ok {literal : List Char} {isDecimal : Bool} {l : Lexeme}
    (h : numeralValue literal isDecimal = .ok l) : (∃ i, l = .int i) ∨ ∃ x, l = .decimal x := by
  unfold numeralValue at h
  split at h
  · split at h <;> cases h
    exact .inr ⟨_, rfl⟩
  · split at h <;> cases h
    exact .inl ⟨_, rfl⟩

inductive Scanned (c : Char) (cs : List Char) : Lexeme → List Char → Prop
  | string {q : Read Char (List Char) cs} (hquote : c = '"' ∨ c = '\'')
      (h : scanString c cs = .ok q) : Scanned c cs (.string (String.ofList q.value)) q.rest
  | param (hne : cs.takeWhile isNameChar ≠ []) :
      Scanned c cs (.param (String.ofList (cs.takeWhile isNameChar)))
        (cs.drop (cs.takeWhile isNameChar).length)
  | numeral {l : Lexeme} (h : numeralValue (c :: (numeralTail cs).1) (numeralTail cs).2 = .ok l) :
      Scanned c cs l (cs.drop (numeralTail cs).1.length)
  | word (hstart : isWordStart c = true) :
      Scanned c cs (.word (String.ofList (c :: cs.takeWhile isWordChar)))
        (cs.drop (cs.takeWhile isWordChar).length)
  | order {m : Mark} {rest : List Char}
      (hm : m ∈ [Mark.greater, .greaterEqual, .less, .lessEqual]) : Scanned c cs (.mark m) rest
  | mark {m : Mark} (h : mark? c = some m) : Scanned c cs (.mark m) cs

theorem scanned_scanOrder {plain orEqual : Mark} (c : Char) (cs : List Char)
    (hplain : plain ∈ [Mark.greater, .greaterEqual, .less, .lessEqual])
    (hequal : orEqual ∈ [Mark.greater, .greaterEqual, .less, .lessEqual]) :
    Scanned c cs (scanOrder plain orEqual c cs).value (scanOrder plain orEqual c cs).rest := by
  unfold scanOrder
  split
  · exact .order hequal
  · exact .order hplain

theorem scanned_of_scan {c : Char} {cs : List Char} {r : Read Char Lexeme (c :: cs)}
    (h : scan c cs = .ok r) : Scanned c cs r.value r.rest := by
  unfold scan at h
  dsimp only at h
  split at h
  · next hquote =>
      obtain ⟨q, hq, rfl⟩ := Outcome.map_eq_ok.1 h
      exact .string hquote hq
  · split at h
    · split at h
      · cases h
      · next hne =>
          cases h
          exact .param hne
    · split at h
      · obtain ⟨l, hl, rfl⟩ := Outcome.map_eq_ok.1 h
        exact .numeral hl
      · split at h
        · next hstart =>
            cases h
            exact .word hstart
        · split at h
          · cases h
            exact scanned_scanOrder c cs (by decide) (by decide)
          · split at h
            · cases h
              exact scanned_scanOrder c cs (by decide) (by decide)
            · split at h
              · next hm =>
                  cases h
                  exact .mark hm
              · cases h

theorem Scanned.spelled {c : Char} {cs rest : List Char} {l : Lexeme}
    (h : Scanned c cs l rest) : Spelled l := by
  cases h with
  | string | order | mark => trivial
  | param hne =>
      rw [Spelled, IsName, String.toList_ofList]
      exact ⟨hne, fun _ => List.mem_takeWhile_imp⟩
  | numeral h => rcases numeralValue_eq_ok h with ⟨_, rfl⟩ | ⟨_, rfl⟩ <;> trivial
  | word hstart =>
      exact ⟨c, _, String.toList_ofList, hstart, fun _ => List.mem_takeWhile_imp⟩

theorem ofChars_eq_cons {cs : List Char} {t : Token} {ts : List Token}
    (h : ofChars cs = .ok (t :: ts)) :
    ∃ c rest left, Text.afterBlanks cs = c :: rest ∧ Scanned c rest t.lexeme left ∧
      ofChars left = .ok ts := by
  cases hcs : Text.afterBlanks cs with
  | nil =>
      rw [ofChars_of_nil hcs] at h
      cases h
  | cons c rest =>
      rw [ofChars_of_cons hcs] at h
      split at h
      · cases h
      · next r hscan =>
          obtain ⟨more, hmore, h⟩ := Outcome.map_eq_ok.1 h
          cases h
          exact ⟨c, rest, r.rest, rfl, scanned_of_scan hscan, hmore⟩

theorem spelled_of_ofChars {cs : List Char} {ts : List Token} (h : ofChars cs = .ok ts) :
    ∀ t ∈ ts, Spelled t.lexeme := by
  induction ts generalizing cs with
  | nil => exact List.forall_mem_nil _
  | cons t ts ih =>
      obtain ⟨c, rest, left, -, hscanned, hmore⟩ := ofChars_eq_cons h
      exact List.forall_mem_cons.2 ⟨hscanned.spelled, ih hmore⟩

end Names

section Separators

def Separates (sep : List Lexeme) (cs : List Char) : Prop :=
  ∀ {ls' : List Lexeme} {cs' : List Char}, Writes ls' cs' →
    Writes (sep ++ ls') (cs ++ cs') ∧ Breaks (cs ++ cs')

theorem separates_comma : Separates [.mark .comma] [',', ' '] := fun h =>
  ⟨h.blank.mark rfl, breaks_cons (by decide)⟩

theorem separates_word {w : String} (h : IsWord w) :
    Separates [.word w] (' ' :: (w.toList ++ [' '])) := fun {ls' cs'} h' => by
  have hword := (Writes.word h).append h'.blank breaks_blank
  refine ⟨?_, breaks_blank⟩
  simpa using hword.blank

theorem Writes.intercalate {α : Type} {lexemes : α → List Lexeme} {text : α → List Char}
    {sep : List Lexeme} {cs : List Char} (hsep : Separates sep cs) {xs : List α}
    (h : ∀ x ∈ xs, Writes (lexemes x) (text x)) :
    Writes (sep.intercalate (xs.map lexemes)) (cs.intercalate (xs.map text)) := by
  induction xs with
  | nil => exact .nil
  | cons x xs ih =>
      rw [List.forall_mem_cons] at h
      cases xs with
      | nil => simpa using h.1
      | cons y ys =>
          obtain ⟨hmore, hbreaks⟩ := hsep (ih h.2)
          simp only [List.map_cons, List.intercalate_cons_cons, List.append_assoc]
          exact h.1.append hmore hbreaks

theorem toList_commaJoined {α : Type} (text : α → String) (xs : List α) :
    (Text.commaJoined (xs.map text)).toList =
      [',', ' '].intercalate (xs.map fun x => (text x).toList) := by
  rw [Text.commaJoined, String.toList_intercalate, List.map_map]
  rfl

theorem Writes.commaJoined {α : Type} {lexemes : α → List Lexeme} {text : α → String}
    {xs : List α} (h : ∀ x ∈ xs, Writes (lexemes x) (text x).toList) :
    Writes ([.mark .comma].intercalate (xs.map lexemes))
      (Text.commaJoined (xs.map text)).toList := by
  rw [toList_commaJoined]
  exact .intercalate separates_comma h

end Separators

end RecordQuery.Token
