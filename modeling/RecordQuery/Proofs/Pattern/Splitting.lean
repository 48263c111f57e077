import Mathlib.Data.List.Forall2
import RecordQuery.Store.Match

/-!
What a pattern matches. The rows of marks kept while a pattern is gone through tell of every
front part of the text whether it can be cut into pieces, one for each character gone through.
-/

namespace RecordQuery.Pattern

def Takes (p : Char) (piece : List Char) : Prop :=
  if p = '%' then True else if p = '_' then ∃ c, piece = [c] else piece = [p]

/-- The text is cut into consecutive pieces, each taken by its character of the pattern. -/
def Splits (pattern text : List Char) : Prop :=
  ∃ pieces : List (List Char), pieces.flatten = text ∧ List.Forall₂ Takes pattern pieces

variable {P Q : List Char → Prop} {text pattern : List Char} {row : List Bool} {p : Char}

/-- The row has a mark for every front part of the text, which stands where `P` holds of it. -/
inductive Tells : (List Char → Prop) → List Char → List Bool → Prop
  | last {P : List Char → Prop} {m : Bool} (h : m = true ↔ P []) : Tells P [] [m]
  | next {P : List Char → Prop} {c : Char} {text : List Char} {m : Bool} {row : List Bool}
      (h : m = true ↔ P []) (hmore : Tells (fun front => P (c :: front)) text row) :
      Tells P (c :: text) (m :: row)

namespace Tells

theorem congr (h : Tells P text row) (hPQ : ∀ front, P front ↔ Q front) : Tells Q text row := by
  have heq : P = Q := funext fun front => propext (hPQ front)
  rwa [heq] at h

theorem getLast? (h : Tells P text row) : row.getLast?.getD false = true ↔ P text := by
  induction h with
  | last h => simpa using h
  | next h hmore ih =>
      cases hmore with
      | last => simpa using ih
      | next => simpa using ih

theorem nowhere : ∀ text : List Char,
    Tells (fun _ => False) text (List.replicate (text.length + 1) false)
  | [] => .last (by simp)
  | c :: text => .next (by simp) (nowhere text)

theorem start : ∀ text : List Char,
    Tells (· = []) text (true :: List.replicate text.length false)
  | [] => .last (by simp)
  | c :: text => .next (by simp) ((nowhere text).congr (by simp))

theorem reached (h : Tells P text row) (seen : Bool) :
    Tells (fun front => seen = true ∨ ∃ taken run, front = taken ++ run ∧ P taken) text
      (reached seen row) := by
  induction h generalizing seen with
  | last h =>
      refine .last ?_
      simp [h]
  | @next P c text m row h hmore ih =>
      refine .next ?_ ((ih (seen || m)).congr fun front => ?_)
      · simp [h]
      -- the run begins at once, or behind the first character
      · rw [Bool.or_eq_true, h, or_assoc]
        refine or_congr_right ⟨?_, ?_⟩
        · rintro (hnil | ⟨taken, run, rfl, htaken⟩)
          · exact ⟨[], c :: front, rfl, hnil⟩
          · exact ⟨c :: taken, run, rfl, htaken⟩
        · rintro ⟨taken, run, hfront, htaken⟩
          rcases List.cons_eq_append_iff.1 hfront with ⟨rfl, -⟩ | ⟨taken', rfl, rfl⟩
          · exact .inl htaken
          · exact .inr ⟨taken', run, rfl, htaken⟩

theorem single (h : Tells P text row) (first : Bool) (ok : Char → Bool) :
    Tells (fun front => (front = [] ∧ first = true) ∨
        ∃ taken c, front = taken ++ [c] ∧ P taken ∧ ok c = true) text
      (first :: row.zipWith (fun m c => m && ok c) text) := by
  induction h generalizing first with
  | last h =>
      refine .last ?_
      simp
  | @next P c text m row h hmore ih =>
      refine .next ?_ ((ih (m && ok c)).congr fun front => ?_)
      · simp
      · rw [Bool.and_eq_true, h]
        constructor
        · rintro (⟨rfl, hnil, hc⟩ | ⟨taken, d, rfl, htaken, hd⟩)
          · exact .inr ⟨[], c, rfl, hnil, hc⟩
          · exact .inr ⟨c :: taken, d, rfl, htaken, hd⟩
        · rintro (⟨hnil, -⟩ | ⟨taken, d, hfront, htaken, hd⟩)
          · cases hnil
          · rcases List.cons_eq_append_iff.1 hfront with ⟨rfl, hlast⟩ | ⟨taken', rfl, rfl⟩
            · cases hlast
              exact .inl ⟨rfl, htaken, hd⟩
            · exact .inr ⟨taken', d, rfl, htaken, hd⟩

theorem advance (h : Tells P text row) (p : Char) :
    Tells (fun front => ∃ taken piece, front = taken ++ piece ∧ P taken ∧ Takes p piece) text
      (advance text row p) := by
  unfold Pattern.advance
  split
  · next hrun =>
      refine (h.reached false).congr fun front => ?_
      simp [Takes, hrun]
  · next hrun =>
      refine (h.single false _).congr fun front => ?_
      constructor
      · rintro (⟨-, hfirst⟩ | ⟨taken, c, rfl, htaken, hc⟩)
        · cases hfirst
        · refine ⟨taken, [c], rfl, htaken, ?_⟩
          rw [Takes, if_neg hrun]
          split
          · exact ⟨c, rfl⟩
          · next hany => simpa [hany, eq_comm] using hc
      · rintro ⟨taken, piece, rfl, htaken, hpiece⟩
        rw [Takes, if_neg hrun] at hpiece
        split at hpiece
        · next hany =>
            obtain ⟨c, rfl⟩ := hpiece
            exact .inr ⟨taken, c, rfl, htaken, by simp [hany]⟩
        · rw [hpiece]
          exact .inr ⟨taken, p, rfl, htaken, by simp⟩

end Tells

theorem splits_nil : Splits [] text ↔ text = [] := by
  unfold Splits
  constructor
  · rintro ⟨pieces, rfl, htakes⟩
    cases htakes
    rfl
  · rintro rfl
    exact ⟨[], rfl, .nil⟩

theorem splits_cons : Splits (p :: pattern) text ↔
    ∃ piece rest, text = piece ++ rest ∧ Takes p piece ∧ Splits pattern rest := by
  unfold Splits
  constructor
  · rintro ⟨pieces, rfl, htakes⟩
    obtain ⟨piece, more, hpiece, hmore, rfl⟩ := List.forall₂_cons_left_iff.1 htakes
    exact ⟨piece, more.flatten, List.flatten_cons, hpiece, more, rfl, hmore⟩
  · rintro ⟨piece, rest, rfl, hpiece, more, rfl, hmore⟩
    exact ⟨piece :: more, List.flatten_cons, .cons hpiece hmore⟩

/-- What the row tells before a pattern is gone through decides what it tells afterwards. -/
theorem Tells.run (h : Tells P text row) (pattern : List Char) :
    Tells (fun front => ∃ taken rest, front = taken ++ rest ∧ P taken ∧ Splits pattern rest) text
      (pattern.foldl (Pattern.advance text) row) := by
  induction pattern generalizing P row with
  | nil =>
      refine h.congr fun front => ?_
      simp [splits_nil]
  | cons p pattern ih =>
      refine (ih (h.advance p)).congr fun front => ?_
      constructor
      · rintro ⟨_, rest, rfl, ⟨taken, piece, rfl, htaken, hpiece⟩, hrest⟩
        refine ⟨taken, piece ++ rest, List.append_assoc .., htaken, ?_⟩
        exact splits_cons.2 ⟨piece, rest, rfl, hpiece, hrest⟩
      · rintro ⟨taken, _, rfl, htaken, hrest⟩
        obtain ⟨piece, rest, rfl, hpiece, hrest⟩ := splits_cons.1 hrest
        refine ⟨taken ++ piece, rest, (List.append_assoc ..).symm, ?_, hrest⟩
        exact ⟨taken, piece, rfl, htaken, hpiece⟩

theorem tells_matched (pattern text : List Char) :
    Tells (Splits pattern) text (matched pattern text) := by
  refine ((Tells.start text).run pattern).congr fun front => ?_
  simp

/-- A pattern matches a text where the whole text can be cut into consecutive pieces, one for each
character of the pattern in order: `%` takes any run of characters, `_` takes one character, and any
other takes itself. -/
theorem matchesText_iff (pattern text : String) :
    matchesText pattern text = true ↔
      ∃ pieces : List (List Char), pieces.flatten = text.toList ∧
        List.Forall₂ Takes pattern.toList pieces :=
  (tells_matched pattern.toList text.toList).getLast?

/-- Runs may be empty and stand behind each other, and a character is one whatever its length in
bytes. -/
example : matchesText "%%_é%" "né" = true ∧ matchesText "_%_" "é" = false := by
  decide

end RecordQuery.Pattern
