import RecordQuery.Proofs.Token.Writes

/-!
Quoted texts as tokens. What stands between the quotes is read character by character: one
backslash goes, and the rest of an escape stays. So a text of plain characters, which are shown as
themselves or behind one backslash, is read back, and no other text is.
-/

namespace RecordQuery

namespace Text

def escapes : List Char := ['t', 'r', 'n', '"', '\\']

/-- The character is shown as itself, or behind a backslash. -/
def IsPlain (c : Char) : Prop := shown c = [c] ∨ ∃ e ∈ escapes, shown c = ['\\', e]

def Plain (s : String) : Prop := ∀ c ∈ s.toList, IsPlain c

theorem isPlain_iff {c : Char} :
    IsPlain c ↔ shown c = [c] ∨ (escapes.any fun e => shown c = ['\\', e]) = true := by
  simp [IsPlain]

instance (c : Char) : Decidable (IsPlain c) := decidable_of_iff' _ isPlain_iff

theorem plain_iff {s : String} : Plain s ↔ (s.toList.all fun c => IsPlain c) = true := by
  simp [Plain]

instance (s : String) : Decidable (Plain s) := decidable_of_iff' _ plain_iff

theorem ne_of_shown_self {c : Char} (h : shown c = [c]) : c ≠ '"' ∧ c ≠ '\\' := by
  constructor <;> rintro rfl <;> exact absurd h (by decide)

theorem unescape_of_shown {c e : Char} (he : e ∈ escapes) (h : shown c = ['\\', e]) :
    Token.unescape e = c := by
  unfold shown at h
  split at h
  · simp only [List.cons.injEq, and_true, true_and] at h
    subst h
    exact absurd he (by decide)
  · iterate 5
      split at h
      · next hc =>
          simp only [List.cons.injEq, and_true, true_and] at h
          subst h hc
          decide
    split at h
    · simp [numbered] at h
    · simp at h

def readBack (c : Char) : List Char :=
  match shown c with
  | _ :: d :: ds => Token.unescape d :: ds
  | cs => cs

def reread (s : String) : String := String.ofList (s.toList.flatMap readBack)

theorem readBack_of_shown_self {c : Char} (h : shown c = [c]) : readBack c = [c] := by
  rw [readBack, h]

theorem readBack_of_shown {c d : Char} {ds : List Char} (h : shown c = '\\' :: d :: ds) :
    readBack c = Token.unescape d :: ds := by
  rw [readBack, h]

theorem readBack_of_isPlain {c : Char} (h : IsPlain c) : readBack c = [c] := by
  rcases h with hself | ⟨e, he, hescaped⟩
  · exact readBack_of_shown_self hself
  · rw [readBack_of_shown hescaped, unescape_of_shown he hescaped]

theorem isPlain_or (c : Char) :
    IsPlain c ∨ c = '\x00' ∨ isHidden c = true ∧ shown c = numbered c := by
  by_cases hzero : c = '\x00'
  · exact .inr (.inl hzero)
  · by_cases hescaped : c ∈ ['\t', '\r', '\n', '"', '\\']
    · left
      simp only [List.mem_cons, List.not_mem_nil, or_false] at hescaped
      rcases hescaped with rfl | rfl | rfl | rfl | rfl <;> decide
    · simp only [List.mem_cons, List.not_mem_nil, or_false, not_or] at hescaped
      have hshown : shown c = if isHidden c then numbered c else [c] := by
        simp only [shown, hzero, hescaped, if_false]
      cases hidden : isHidden c
      · exact .inl (.inl (by rw [hshown, hidden, if_neg Bool.false_ne_true]))
      · exact .inr (.inr ⟨rfl, by rw [hshown, hidden, if_pos rfl]⟩)

theorem isHidden_u : isHidden 'u' = false := by decide

theorem readBack_of_not_isPlain {c : Char} (h : ¬ IsPlain c) :
    ∃ d ds, readBack c = d :: ds ∧ d ≠ c := by
  rcases isPlain_or c with hplain | rfl | ⟨hidden, hshown⟩
  · exact absurd hplain h
  · exact ⟨'0', [], by decide, by decide⟩
  · refine ⟨'u', _, readBack_of_shown hshown, ?_⟩
    rintro rfl
    rw [isHidden_u] at hidden
    cases hidden

theorem flatMap_readBack_eq_iff {cs : List Char} :
    cs.flatMap readBack = cs ↔ ∀ c ∈ cs, IsPlain c := by
  induction cs with
  | nil => simp
  | cons c cs ih =>
      rw [List.flatMap_cons, List.forall_mem_cons]
      by_cases hc : IsPlain c
      · rw [readBack_of_isPlain hc, List.singleton_append, List.cons.injEq, ih]
        simp [hc]
      · obtain ⟨d, ds, hread, hne⟩ := readBack_of_not_isPlain hc
        simp [hread, hne, hc]

theorem reread_eq_iff {s : String} : reread s = s ↔ Plain s := by
  rw [reread, ← String.toList_inj, String.toList_ofList]
  exact flatMap_readBack_eq_iff

theorem digitChar_ne_quote (n : Nat) : n.digitChar ≠ '"' ∧ n.digitChar ≠ '\\' :=
  ⟨Nat.digitChar_ne _ (by decide), Nat.digitChar_ne _ (by decide)⟩

theorem ne_quote_of_mem_toDigits {n : Nat} :
    ∀ c ∈ Nat.toDigits 16 n, c ≠ '"' ∧ c ≠ '\\' := by
  induction n using Nat.strongRecOn with
  | ind n ih =>
      rw [Nat.toDigits_eq_if (by decide)]
      split
      · simp [digitChar_ne_quote]
      · have hdiv : n / 16 < n := by omega
        rw [List.forall_mem_append]
        exact ⟨ih _ hdiv, by simp [digitChar_ne_quote]⟩

end Text

namespace Token

variable {quote c d : Char} {cs tail value : List Char}

theorem scanString_close (quote : Char) (cs : List Char) :
    scanString quote (quote :: cs) = .ok (.one [] quote cs) := by
  rw [scanString.eq_def]
  simp

theorem scanString_plain {hlt : tail.length < cs.length} (hquote : c ≠ quote) (hslash : c ≠ '\\')
    (h : scanString quote cs = .ok ⟨value, tail, hlt⟩) :
    ∃ hlt, scanString quote (c :: cs) = .ok ⟨c :: value, tail, hlt⟩ := by
  rw [scanString.eq_def]
  refine ⟨Nat.lt_succ_of_lt hlt, ?_⟩
  simp only [if_neg hquote, if_neg hslash, h]
  rfl

theorem scanString_escape {hlt : tail.length < cs.length} (hquote : '\\' ≠ quote)
    (h : scanString quote cs = .ok ⟨value, tail, hlt⟩) :
    ∃ hlt, scanString quote ('\\' :: d :: cs) = .ok ⟨unescape d :: value, tail, hlt⟩ := by
  rw [scanString.eq_def]
  refine ⟨Nat.lt_succ_of_lt (Nat.lt_succ_of_lt hlt), ?_⟩
  simp only [if_neg hquote, if_true, h]
  rfl

theorem scanString_verbatim {ds : List Char} {hlt : tail.length < cs.length}
    (hds : ∀ d ∈ ds, d ≠ quote ∧ d ≠ '\\') (h : scanString quote cs = .ok ⟨value, tail, hlt⟩) :
    ∃ hlt, scanString quote (ds ++ cs) = .ok ⟨ds ++ value, tail, hlt⟩ := by
  induction ds with
  | nil => exact ⟨hlt, h⟩
  | cons d ds ih =>
      rw [List.forall_mem_cons] at hds
      obtain ⟨_, hscan⟩ := ih hds.2
      exact scanString_plain hds.1.1 hds.1.2 hscan

theorem scanString_shown (c : Char) {hlt : tail.length < cs.length}
    (h : scanString '"' cs = .ok ⟨value, tail, hlt⟩) :
    ∃ hlt, scanString '"' (Text.shown c ++ cs) = .ok ⟨Text.readBack c ++ value, tail, hlt⟩ := by
  rcases Text.isPlain_or c with (hself | ⟨e, he, hescaped⟩) | rfl | ⟨-, hnumbered⟩
  · obtain ⟨hquote, hslash⟩ := Text.ne_of_shown_self hself
    rw [hself, Text.readBack_of_shown_self hself]
    exact scanString_plain hquote hslash h
  · rw [Text.readBack_of_shown hescaped, hescaped]
    exact scanString_escape (by decide) h
  · exact scanString_escape (by decide) h
  · have hverbatim : ∀ d ∈ '\x7b' :: (Nat.toDigits 16 c.toNat ++ ['\x7d']),
        d ≠ '"' ∧ d ≠ '\\' := by
      rw [List.forall_mem_cons, List.forall_mem_append]
      exact ⟨by decide, Text.ne_quote_of_mem_toDigits, List.forall_mem_singleton.2 (by decide)⟩
    obtain ⟨_, hscan⟩ := scanString_verbatim hverbatim h
    rw [Text.readBack_of_shown hnumbered, hnumbered]
    exact scanString_escape (by decide) hscan

theorem scanString_quoted (cs tail : List Char) :
    ∃ hlt, scanString '"' (cs.flatMap Text.shown ++ '"' :: tail) =
      .ok ⟨cs.flatMap Text.readBack, tail, hlt⟩ := by
  induction cs with
  | nil => exact ⟨_, scanString_close '"' tail⟩
  | cons c cs ih =>
      obtain ⟨_, hscan⟩ := ih
      rw [List.flatMap_cons, List.flatMap_cons, List.append_assoc]
      exact scanString_shown c hscan

theorem Writes.quoted (s : String) : Writes [.string (Text.reread s)] (Text.quote s).toList := by
  rw [Text.toList_quote, Text.quoted, List.cons_append]
  refine .single (by decide) fun tail _ => ?_
  obtain ⟨hlt, hscan⟩ := scanString_quoted s.toList tail
  rw [List.append_assoc, List.singleton_append]
  refine ⟨Nat.lt_succ_of_lt hlt, ?_⟩
  rw [scan, if_pos (.inl rfl), hscan]
  rfl

theorem isWordChar_of_isWordStart (h : isWordStart c = true) : isWordChar c = true := by
  rcases Bool.or_eq_true_iff.1 h with hletter | hunder
  · simp [isWordChar, isNameChar, hletter]
  · simp [isWordChar, isNameChar, of_decide_eq_true hunder]

theorem IsWord.forall_isWordChar {name : String} (h : IsWord name) :
    ∀ d ∈ name.toList, isWordChar d = true := by
  obtain ⟨d, ds, hname, hstart, hds⟩ := h
  rw [hname, List.forall_mem_cons]
  exact ⟨isWordChar_of_isWordStart hstart, hds⟩

theorem Writes.between {quote : Char} (hquote : quote = '"' ∨ quote = '\'') {name : String}
    (h : IsWord name) : Writes [.string name] (quote :: (name.toList ++ [quote])) := by
  have hblank : Text.isBlank quote = false := by
    rcases hquote with rfl | rfl <;> decide
  have hnone : isWordChar quote = false ∧ isWordChar '\\' = false := by
    rcases hquote with rfl | rfl <;> decide
  have hplain : ∀ d ∈ name.toList, d ≠ quote ∧ d ≠ '\\' := by
    intro d hd
    have hword := h.forall_isWordChar d hd
    constructor <;> rintro rfl <;> simp [hnone] at hword
  refine .single hblank fun tail _ => ?_
  obtain ⟨_, hscan⟩ := scanString_verbatim hplain (scanString_close quote tail)
  have hall : name.toList ++ [quote] ++ tail = name.toList ++ quote :: tail := by simp
  rw [hall, scan, if_pos hquote, hscan]
  refine ⟨?_, ?_⟩
  · simp only [List.length_cons, List.length_append]
    omega
  · simp only [Outcome.ok_map, Read.map, Read.within, List.append_nil, String.ofList_toList]

end Token

end RecordQuery
