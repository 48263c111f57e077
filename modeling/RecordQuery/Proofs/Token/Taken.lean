import RecordQuery.Proofs.Token.Spelled

namespace RecordQuery.Token

theorem count_unescape_cons (d : Char) (cs : List Char) :
    (unescape d :: cs).count '=' = (d :: cs).count '=' := by
  unfold unescape
  repeat' split
  all_goals
    subst_vars
    simp [List.count_cons]

theorem Quoted.count_equals {quote : Char} {inner s : List Char} (h : Quoted quote inner s) :
    inner.count '=' = s.count '=' := by
  induction h with
  | nil => rfl
  | plain _ _ _ ih => rw [List.count_cons, List.count_cons, ih]
  | escape _ ih =>
      rw [List.count_cons_of_ne (by decide), count_unescape_cons, List.count_cons, List.count_cons,
        ih]

theorem Quoted.length_le {quote : Char} {inner s : List Char} (h : Quoted quote inner s) :
    s.length ≤ inner.length := by
  induction h with
  | nil => exact Nat.le_refl _
  | plain _ _ _ ih => exact Nat.succ_le_succ ih
  | escape _ ih => exact Nat.le_succ_of_le (Nat.succ_le_succ ih)

theorem scanString_taken {quote : Char} {cs : List Char} {r : Read Char (List Char) cs}
    (hquote : quote ≠ '=') (h : scanString quote cs = .ok r) :
    ∃ taken, cs = taken ++ r.rest ∧ taken.count '=' = r.value.count '=' ∧
      r.value.length < taken.length := by
  obtain ⟨inner, hinner, hquoted⟩ := quoted_of_scanString h
  refine ⟨inner ++ [quote], ?_, ?_, ?_⟩
  · rw [List.append_assoc]
    exact hinner
  · rw [List.count_append, hquoted.count_equals, List.count_cons_of_ne hquote, List.count_nil,
      Nat.add_zero]
  · rw [List.length_append]
    exact Nat.lt_succ_of_le hquoted.length_le

theorem afterBlanks_taken (cs : List Char) :
    ∃ taken, cs = taken ++ Text.afterBlanks cs ∧ taken.count '=' = 0 := by
  refine ⟨cs.takeWhile Text.isBlank, List.takeWhile_append_dropWhile.symm, ?_⟩
  refine List.count_eq_zero.2 fun hmem => ?_
  have hblank := List.mem_takeWhile_imp hmem
  exact absurd hblank (by decide)

namespace Scanned

variable {c : Char} {cs rest : List Char}

theorem openBrace (h : Scanned c cs (.mark .openBrace) rest) : c = '\x7b' ∧ rest = cs := by
  cases h with
  | numeral h => rcases numeralValue_eq_ok h with ⟨_, heq⟩ | ⟨_, heq⟩ <;> cases heq
  | order hm => exact absurd hm (by decide)
  | mark h =>
      unfold mark? at h
      split at h <;> cases h
      exact ⟨rfl, rfl⟩

theorem quoted {s : String} (h : Scanned c cs (.string s) rest) :
    (c = '"' ∨ c = '\'') ∧
      ∃ q, scanString c cs = .ok q ∧ s = String.ofList q.value ∧ rest = q.rest := by
  cases h with
  | string hquote h => exact ⟨hquote, _, h, rfl, rfl⟩
  | numeral h => rcases numeralValue_eq_ok h with ⟨_, heq⟩ | ⟨_, heq⟩ <;> cases heq

end Scanned

variable {cs : List Char} {source : List Char} {ts : List Token}

theorem taken_of_openBrace (h : ofChars cs = .ok (⟨.mark .openBrace, source⟩ :: ts)) :
    ∃ taken left, cs = taken ++ left ∧ ofChars left = .ok ts ∧ taken.count '=' = 0 ∧
      0 < taken.length := by
  obtain ⟨c, rest, left, hblanks, hscanned, hmore⟩ := ofChars_eq_cons h
  obtain ⟨blanks, hcs, hnone⟩ := afterBlanks_taken cs
  obtain ⟨rfl, rfl⟩ := hscanned.openBrace
  refine ⟨blanks ++ ['\x7b'], left, ?_, hmore, ?_, by simp⟩
  · rw [hcs, hblanks, List.append_assoc, List.singleton_append]
  · rw [List.count_append, hnone]
    rfl

theorem taken_of_string {s : String} (h : ofChars cs = .ok (⟨.string s, source⟩ :: ts)) :
    ∃ taken left, cs = taken ++ left ∧ ofChars left = .ok ts ∧
      taken.count '=' = s.toList.count '=' ∧ s.toList.length + 1 < taken.length := by
  obtain ⟨c, rest, left, hblanks, hscanned, hmore⟩ := ofChars_eq_cons h
  obtain ⟨blanks, hcs, hnone⟩ := afterBlanks_taken cs
  obtain ⟨hquote, q, hq, rfl, rfl⟩ := hscanned.quoted
  have hc : c ≠ '=' := by
    rintro rfl
    revert hquote
    decide
  obtain ⟨taken, htaken, hcount, hlt⟩ := scanString_taken hc hq
  rw [String.toList_ofList]
  refine ⟨blanks ++ c :: taken, q.rest, ?_, hmore, ?_, ?_⟩
  · rw [hcs, hblanks, List.append_assoc]
    exact congrArg (blanks ++ c :: ·) htaken
  · rw [List.count_append, hnone, List.count_cons_of_ne hc, hcount, Nat.zero_add]
  · simp only [List.length_append, List.length_cons]
    omega

/-- The key would have to take the equals sign behind the name, and would then have one too many. -/
theorem not_spells_name {name : String} {rest : List Char} {left : List Token}
    (h : ofChars (name.toList ++ ' ' :: '=' :: rest) = .ok ts) :
    ¬ Spells [.mark .openBrace, .string name] ts left := by
  rintro ⟨source, ts, rfl, source', ts', rfl, rfl⟩
  obtain ⟨brace, cs, hcs, hmore, hnone, hpos⟩ := taken_of_openBrace h
  obtain ⟨taken, cs', rfl, -, hcount, hlt⟩ := taken_of_string hmore
  have hall : (name.toList ++ [' ', '=']) ++ rest = (brace ++ taken) ++ cs' := by
    rw [List.append_assoc, List.append_assoc]
    exact hcs
  have hlength : (name.toList ++ [' ', '=']).length ≤ (brace ++ taken).length := by
    simp only [List.length_append, List.length_cons, List.length_nil]
    omega
  have hfront : name.toList ++ [' ', '='] <+: brace ++ taken :=
    List.prefix_of_prefix_length_le ⟨rest, hall⟩ ⟨cs', rfl⟩ hlength
  have hequals := hfront.sublist.count_le '='
  rw [List.count_append, List.count_append, hnone, hcount] at hequals
  have : [' ', '='].count '=' = 1 := by decide
  omega

end RecordQuery.Token
