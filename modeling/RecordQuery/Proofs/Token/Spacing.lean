import RecordQuery.Proofs.Token.Spelled

namespace RecordQuery.Token

/-- A token in its text, and the blanks behind it. -/
structure Piece where
  lexeme : Lexeme
  text : List Char
  gap : List Char
  spelling : Spelling lexeme text
  blank : ∀ c ∈ gap, Text.isBlank c = true

namespace Piece

def joined (ps : List Piece) : List Char := ps.flatMap fun p => p.text ++ p.gap

theorem joined_cons (p : Piece) (ps : List Piece) :
    joined (p :: ps) = p.text ++ (p.gap ++ joined ps) := List.append_assoc _ _ _

/-- Only behind the last token there may be no blank. -/
def Apart (ps : List Piece) : Prop := ∀ p ∈ ps.dropLast, p.gap ≠ []

end Piece

theorem ofChars_of_blanks {gap : List Char} (h : ∀ c ∈ gap, Text.isBlank c = true)
    (cs : List Char) : ofChars (gap ++ cs) = ofChars cs := by
  induction gap with
  | nil => rfl
  | cons c gap ih =>
      rw [List.forall_mem_cons] at h
      rw [List.cons_append, ofChars_of_blank h.1, ih h.2]

theorem Spelling.ofChars_append {l : Lexeme} {cs tail : List Char} (h : Spelling l cs)
    (htail : Token.Apart tail) :
    ofChars (cs ++ tail) = (ofChars tail).map (⟨l, cs ++ tail⟩ :: ·) := by
  obtain ⟨c, body, rfl, hblank, _, hscan⟩ := h.scannedAlone
  obtain ⟨_, hscan⟩ := scan_append hscan htail
  exact ofChars_of_scan hblank hscan

theorem apart_of_gap (p : Piece) {ps : List Piece} (h : Piece.Apart (p :: ps)) :
    Token.Apart (p.gap ++ Piece.joined ps) := by
  have hblank := p.blank
  cases hgap : p.gap with
  | cons c gap =>
      rw [hgap, List.forall_mem_cons] at hblank
      exact apart_of_isBlank hblank.1 (gap ++ Piece.joined ps)
  | nil =>
      -- nothing but the end of the text can follow at once
      cases ps with
      | nil => exact apart_nil
      | cons q ps => exact absurd hgap (h p List.mem_cons_self)

theorem ofChars_joined {ps : List Piece} (h : Piece.Apart ps) :
    ∃ ts, ofChars (Piece.joined ps) = .ok ts ∧ ts.map Token.lexeme = ps.map Piece.lexeme := by
  induction ps with
  | nil => exact ⟨[], ofChars_of_nil rfl, rfl⟩
  | cons p ps ih =>
      have hmore : Piece.Apart ps := by
        cases ps with
        | nil => exact fun q hq => absurd hq List.not_mem_nil
        | cons q ps => exact fun r hr => h r (List.mem_cons_of_mem p hr)
      obtain ⟨ts, hts, hlexemes⟩ := ih hmore
      refine ⟨⟨p.lexeme, p.text ++ (p.gap ++ Piece.joined ps)⟩ :: ts, ?_, ?_⟩
      · rw [Piece.joined_cons, p.spelling.ofChars_append (apart_of_gap p h),
          ofChars_of_blanks p.blank, hts, Outcome.ok_map]
      · rw [List.map_cons, List.map_cons, hlexemes]

theorem exists_pieces {cs : List Char} {ts : List Token} (h : ofChars cs = .ok ts) :
    ∃ lead ps, (∀ c ∈ lead, Text.isBlank c = true) ∧ cs = lead ++ Piece.joined ps ∧
      ts.map Token.lexeme = ps.map Piece.lexeme := by
  induction ts generalizing cs with
  | nil =>
      rcases ofChars_eq_ok h with ⟨hblanks, -⟩ | ⟨c, rest, r, more, -, -, -, hcons⟩
      · refine ⟨cs.takeWhile Text.isBlank, [], fun _ => List.mem_takeWhile_imp, ?_, rfl⟩
        have hsplit := blanks_append_afterBlanks cs
        rw [hblanks] at hsplit
        exact hsplit.symm
      · cases hcons
  | cons t ts ih =>
      rcases ofChars_eq_ok h with ⟨-, hnil⟩ | ⟨c, rest, r, more, hblanks, hscan, hmore, hcons⟩
      · cases hnil
      · cases hcons
        obtain ⟨taken, htaken, hspelling⟩ := takes_of_scan hscan
        obtain ⟨gap, ps, hgap, hrest, hlexemes⟩ := ih hmore
        refine ⟨cs.takeWhile Text.isBlank, ⟨r.value, taken, gap, hspelling, hgap⟩ :: ps,
          fun _ => List.mem_takeWhile_imp, ?_, ?_⟩
        · have hsplit := blanks_append_afterBlanks cs
          rw [hblanks, htaken, hrest] at hsplit
          rw [Piece.joined_cons, hsplit]
        · rw [List.map_cons, List.map_cons, hlexemes]

end RecordQuery.Token
