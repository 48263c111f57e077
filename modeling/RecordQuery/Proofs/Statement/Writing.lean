import RecordQuery.Proofs.Condition.Writing
import RecordQuery.Proofs.Statement.Legible

namespace RecordQuery

open Token (IsWord Writes Breaks Spells)

namespace Written

section Pieces

variable {ls : List Lexeme} {cs : List Char} {w : String}

theorem writes_word (hw : IsWord w) (h : Writes ls cs) :
    Writes (.word w :: ls) (w.toList ++ ' ' :: cs) :=
  (Writes.word hw).append h.blank Token.breaks_blank

theorem isWord_verb (v : Verb) : IsWord v.keyword := by
  cases v <;> decide

theorem isWord_direction (d : Direction) : IsWord d.keyword := by
  cases d <;> decide

theorem writes_commaWords {names : List String} (h : ∀ name ∈ names, IsWord name) :
    Writes (commaWords names) (Text.commaJoined names).toList := by
  have hnames : Writes (commaWords names) (Text.commaJoined (names.map fun name => name)).toList :=
    .commaJoined fun name hname => .word (h name hname)
  rwa [List.map_id'] at hnames

theorem SortField.writes {s : SortField} (h : IsWord s.name) : Writes s.lexemes s.text.toList := by
  obtain ⟨name, direction⟩ := s
  cases direction with
  | none => exact .word h
  | some d =>
      rw [SortField.text, String.toList_append, String.toList_append, List.append_assoc]
      exact writes_word h (.word (isWord_direction d))

theorem writes_commaFields {ss : List SortField} (h : ∀ s ∈ ss, IsWord s.name) :
    Writes (commaFields ss) (Text.commaJoined (ss.map SortField.text)).toList := by
  apply Writes.commaJoined
  intro s hs
  exact SortField.writes (h s hs)

def whereWords : Option Condition → List Lexeme
  | none => []
  | some c => .word "where" :: c.lexemes

def Clausal (ls : List Lexeme) (cs : List Char) : Prop := Writes ls cs ∧ Breaks cs

theorem clausal_nil : Clausal [] [] := ⟨.nil, Token.breaks_nil⟩

theorem clausal_word (hw : IsWord w) (h : Writes ls cs) :
    Clausal (.word w :: ls) (' ' :: (w.toList ++ ' ' :: cs)) :=
  ⟨(writes_word hw h).blank, Token.breaks_blank⟩

theorem Clausal.append {ls' : List Lexeme} {cs' : List Char} (h : Clausal ls cs)
    (h' : Clausal ls' cs') : Clausal (ls ++ ls') (cs ++ cs') :=
  ⟨h.1.append h'.1 h'.2, h.2.append h'.2⟩

theorem clausal_where {c : Option Condition} (hc : ∀ d ∈ c, d.Readable)
    (hplain : ∀ d ∈ c, d.Plain) : Clausal (whereWords c) (Command.whereText c).toList := by
  cases c with
  | none => exact clausal_nil
  | some c =>
      rw [Command.whereText, String.toList_append]
      exact clausal_word (w := "where") (by decide)
        (Condition.writes (hc c rfl).legible (hplain c rfl))

def orderText (ss : List SortField) : String :=
  if ss = [] then "" else " order by " ++ Text.commaJoined (ss.map SortField.text)

def numberText (clause : String) : Option UInt64 → String
  | none => ""
  | some n => " " ++ clause ++ " " ++ toString n.toNat

def windowText (ss : List SortField) (skip limit : Option UInt64) : String :=
  orderText ss ++ numberText "skip" skip ++ numberText "limit" limit

theorem sortsText_eq (sorts : List SortKey) :
    Command.sortsText sorts = orderText (sorts.map SortField.ofKey) := by
  rw [Command.sortsText, orderText, List.map_map]
  simp only [List.map_eq_nil_iff]
  rfl

theorem countText_eq (clause : String) (n : UInt64) :
    Command.countText clause n = numberText clause (given n) := by
  unfold Command.countText given
  split <;> rfl

theorem clausal_order {ss : List SortField} (h : ∀ s ∈ ss, IsWord s.name) :
    Clausal (orderLexemes ss) (orderText ss).toList := by
  unfold orderLexemes orderText
  split
  · exact clausal_nil
  · rw [String.toList_append]
    exact clausal_word (w := "order") (by decide)
      (writes_word (w := "by") (by decide) (writes_commaFields h))

theorem writes_count {n : Nat} (hn : n < countBound) :
    Writes [.int (Int64.ofNat n)] (toString n).toList := by
  have htoInt : (Int64.ofNat n).toInt = n := Int64.toInt_ofNat_of_lt hn
  have hdigits : Number.writeInt64 (Int64.ofNat n) = Nat.toDigits 10 n := by
    rw [Number.writeInt64, htoInt, Number.writeInt, if_neg (by omega), Int.natAbs_natCast]
  have htext : (toString n).toList = Nat.toDigits 10 n := by simp
  rw [htext, ← hdigits]
  exact .int _

theorem clausal_count (clause : String) (hclause : IsWord clause) {n : Option UInt64}
    (hn : ∀ m ∈ n, m.toNat < countBound) :
    Clausal (countLexemes clause n) (numberText clause n).toList := by
  cases n with
  | none => exact clausal_nil
  | some m =>
      have htext : (numberText clause (some m)).toList =
          ' ' :: (clause.toList ++ ' ' :: (toString m.toNat).toList) := by
        simp [numberText]
      rw [countLexemes, htext]
      exact clausal_word hclause (writes_count (hn m rfl))

theorem clausal_window {ss : List SortField} {skip limit : Option UInt64}
    (hss : ∀ s ∈ ss, IsWord s.name) (hskip : ∀ n ∈ skip, n.toNat < countBound)
    (hlimit : ∀ n ∈ limit, n.toNat < countBound) :
    Clausal (windowLexemes ss skip limit) (windowText ss skip limit).toList := by
  have hnumbers := (clausal_count "skip" (by decide) hskip).append
    (clausal_count "limit" (by decide) hlimit)
  rw [windowText, String.toList_append, String.toList_append, List.append_assoc]
  exact (clausal_order hss).append hnumbers

theorem toNat_of_given {n : UInt64} (h : n.toNat < countBound) :
    ∀ m ∈ given n, m.toNat < countBound := by
  intro m hm
  unfold given at hm
  split at hm
  · cases hm
  · cases hm
    exact h

def fieldWords (names : List String) : List Lexeme :=
  if names = [] then [.mark .star] else commaWords names

theorem writes_fieldWords {names : List String} (h : ∀ name ∈ names, IsWord name) :
    Writes (fieldWords names)
      (if names = [] then "*" else Text.commaJoined names).toList := by
  unfold fieldWords
  split
  · exact Writes.nil.mark rfl
  · exact writes_commaWords h

theorem writes_source {entity : String} (hentity : IsWord entity) (h : Clausal ls cs) :
    Writes (.word "from" :: .word entity :: ls) ("from".toList ++ ' ' :: (entity.toList ++ cs)) :=
  writes_word (by decide) ((Writes.word hentity).append h.1 h.2)

def selectText (fields : List String) (entity : String) : String :=
  "select " ++ (if fields = [] then "*" else Text.commaJoined fields) ++ " from " ++ entity

def deleteText (fields : List String) (entity : String) : String :=
  "delete " ++ (if fields = [] then "" else Text.commaJoined fields ++ " ") ++ "from " ++ entity

variable {fields : List String} {entity : String}

theorem writes_select (hfields : ∀ name ∈ fields, IsWord name) (hentity : IsWord entity)
    (h : Clausal ls cs) :
    Writes (.word "select" :: (fieldWords fields ++ .word "from" :: .word entity :: ls))
      ((selectText fields entity).toList ++ cs) := by
  have hsource := (writes_fieldWords hfields).append (writes_source hentity h).blank
    Token.breaks_blank
  have htext : (selectText fields entity).toList ++ cs = Verb.select.keyword.toList ++ ' ' ::
      ((if fields = [] then "*" else Text.commaJoined fields).toList ++ ' ' ::
        ("from".toList ++ ' ' :: (entity.toList ++ cs))) := by
    simp [selectText, Verb.keyword]
  rw [htext]
  exact writes_word (isWord_verb .select) hsource

theorem writes_delete (hfields : ∀ name ∈ fields, IsWord name) (hentity : IsWord entity)
    (h : Clausal ls cs) :
    Writes (.word "delete" :: (commaWords fields ++ .word "from" :: .word entity :: ls))
      ((deleteText fields entity).toList ++ cs) := by
  have hsource := writes_source hentity h
  by_cases hnil : fields = []
  · have htext : (deleteText fields entity).toList ++ cs = Verb.delete.keyword.toList ++ ' ' ::
        ("from".toList ++ ' ' :: (entity.toList ++ cs)) := by
      simp [deleteText, Verb.keyword, hnil]
    rw [hnil] at htext ⊢
    rw [htext]
    exact writes_word (isWord_verb .delete) hsource
  · have htext : (deleteText fields entity).toList ++ cs = Verb.delete.keyword.toList ++ ' ' ::
        ((Text.commaJoined fields).toList ++ ' ' ::
          ("from".toList ++ ' ' :: (entity.toList ++ cs))) := by
      simp [deleteText, Verb.keyword, hnil]
    rw [htext]
    exact writes_word (isWord_verb .delete)
      ((writes_commaWords hfields).append hsource.blank Token.breaks_blank)

end Pieces

end Written

namespace Select

open Written

def lexemes (q : Selection) : List Lexeme :=
  .word "select" :: (fieldWords q.fields ++ .word "from" :: .word q.entity ::
    (whereWords q.condition ++ (orderWords q.sorts ++
      (countWords "skip" q.skip ++ countWords "limit" q.limit))))

theorem text_eq (q : Selection) : Command.text (.select q) =
    selectText q.fields q.entity ++ Command.whereText q.condition ++
      windowText (q.sorts.map SortField.ofKey) (given q.skip) (given q.limit) := by
  simp [Command.text, selectText, windowText, sortsText_eq, countText_eq, String.append_assoc]

theorem writes {q : Selection} (h : q.Legible) (hplain : ∀ c ∈ q.condition, c.Plain) :
    Writes (lexemes q) (Command.text (.select q)).toList := by
  have hsorts : ∀ s ∈ q.sorts.map SortField.ofKey, IsWord s.name := by
    intro s hs
    obtain ⟨key, hkey, rfl⟩ := List.mem_map.1 hs
    exact h.sorts key hkey
  have hclauses := (clausal_where h.condition hplain).append
    (clausal_window hsorts (toNat_of_given h.skip) (toNat_of_given h.limit))
  rw [lexemes, orderWords_eq, countWords_eq, countWords_eq, text_eq, String.toList_append,
    String.toList_append, List.append_assoc]
  exact writes_select h.fields h.entity hclauses

end Select

namespace Delete

open Written

def lexemes (q : Deletion) : List Lexeme :=
  .word "delete" :: (commaWords q.fields ++
    .word "from" :: .word q.entity :: whereWords q.condition)

theorem writes {q : Deletion} (h : q.Legible) (hplain : ∀ c ∈ q.condition, c.Plain) :
    Writes (lexemes q) (Command.text (.delete q)).toList := by
  have htext : (Command.text (.delete q)).toList =
      (deleteText q.fields q.entity).toList ++ (Command.whereText q.condition).toList := by
    simp [Command.text, deleteText]
  rw [htext]
  exact writes_delete h.fields h.entity (clausal_where h.condition hplain)

end Delete

end RecordQuery
