import RecordQuery.Proofs.Grammar.Spelling
import RecordQuery.Written.Literal

namespace RecordQuery.Written

open Token (Spells)

inductive Key : Lexeme → String → Prop
  | string (key : String) : Key (.string key) key
  | word (key : String) : Key (.word key) key

mutual

inductive Literal (limits : Limits) : Nat → List Lexeme → Value → Prop
  | string {depth : Nat} (s : String) : Literal limits depth [.string s] (.string s)
  | int {depth : Nat} (i : Int64) : Literal limits depth [.int i] (.int i)
  | decimal {depth : Nat} (x : Double) : Literal limits depth [.decimal x] (.float x)
  | param {depth : Nat} (name : String) : Literal limits depth [.param name] (.param name)
  | word {depth : Nat} {word : String} {v : Value} (h : wordValue? word = some v) :
      Literal limits depth [.word word] v
  | conversion {depth : Nat} {ls : List Lexeme} {v w : Value} {name : String} {t : ScalarType}
      (hdepth : depth < limits.literalDepth) (hv : Literal limits (depth + 1) ls v)
      (hclosed : v.params = []) (ht : ScalarType.ofName name = .ok t) (hw : v.convert t = .ok w) :
      Literal limits depth
        (.word "convert" :: .mark .openParen ::
          (ls ++ [.mark .comma, .word name, .mark .closeParen]))
        w
  | braces {depth : Nat} {ls : List Lexeme} {v : Value} (hdepth : depth < limits.literalDepth)
      (hv : Braces limits (depth + 1) ls v) : Literal limits depth (.mark .openBrace :: ls) v
  | noItems {depth : Nat} (hdepth : depth < limits.literalDepth) :
      Literal limits depth [.mark .openBracket, .mark .closeBracket] (.list [])
  | items {depth : Nat} {ls : List Lexeme} {vs : List Value} (hdepth : depth < limits.literalDepth)
      (hvs : Items limits (depth + 1) ls vs) :
      Literal limits depth (.mark .openBracket :: (ls ++ [.mark .closeBracket])) (.list vs)

inductive Braces (limits : Limits) : Nat → List Lexeme → Value → Prop
  | empty {depth : Nat} : Braces limits depth [.mark .closeBrace] (.document [])
  | entries {depth : Nat} {ls : List Lexeme} {cs : List Column} (hcs : Entries limits depth ls cs) :
      Braces limits depth (ls ++ [.mark .closeBrace]) (documentOf cs)
  | items {depth : Nat} {ls : List Lexeme} {vs : List Value} (hvs : Items limits depth ls vs) :
      Braces limits depth (ls ++ [.mark .closeBrace]) (.list vs)

inductive Items (limits : Limits) : Nat → List Lexeme → List Value → Prop
  | one {depth : Nat} {ls : List Lexeme} {v : Value} (hv : Literal limits depth ls v) :
      Items limits depth ls [v]
  | cons {depth : Nat} {ls ls' : List Lexeme} {v : Value} {vs : List Value}
      (hv : Literal limits depth ls v) (hvs : Items limits depth ls' vs) :
      Items limits depth (ls ++ .mark .comma :: ls') (v :: vs)

inductive Entries (limits : Limits) : Nat → List Lexeme → List Column → Prop
  | one {depth : Nat} {l : Lexeme} {key : String} {ls : List Lexeme} {v : Value}
      (hkey : Key l key) (hv : Literal limits depth ls v) :
      Entries limits depth (l :: .mark .colon :: ls) [⟨key, v⟩]
  | cons {depth : Nat} {l : Lexeme} {key : String} {ls ls' : List Lexeme} {v : Value}
      {cs : List Column} (hkey : Key l key) (hv : Literal limits depth ls v)
      (hcs : Entries limits depth ls' cs) :
      Entries limits depth (l :: .mark .colon :: (ls ++ .mark .comma :: ls')) (⟨key, v⟩ :: cs)

end

theorem deeper_eq_ok {limits : Limits} {limit : Limited} {depth deep : Nat} :
    deeper limits limit depth = .ok deep ↔ depth < limits.of limit ∧ deep = depth + 1 := by
  unfold deeper
  split
  · next h =>
      have : ¬ depth < limits.of limit := by omega
      simp [this]
  · next h =>
      have : depth < limits.of limit := by omega
      simp [this, eq_comm]

theorem deeper_of_lt {limits : Limits} (limit : Limited) {depth : Nat}
    (h : depth < limits.of limit) : deeper limits limit depth = .ok (depth + 1) :=
  deeper_eq_ok.2 ⟨h, rfl⟩

theorem spells_of_comma? {ts : List Token} {r : Read Token Unit ts} (h : comma? ts = some r) :
    Spells [.mark .comma] ts r.rest := by
  unfold comma? at h
  split at h
  · next source rest =>
      cases h
      exact ⟨source, rest, rfl, rfl⟩
  · cases h

theorem comma?_of_spells {ts rest : List Token} (h : Spells [.mark .comma] ts rest) :
    ∃ hlt, comma? ts = some ⟨(), rest, hlt⟩ := by
  obtain ⟨source, rest, rfl, rfl⟩ := h
  exact ⟨_, rfl⟩

theorem key_of_readKey {ts : List Token} {r : Read Token String ts} (h : readKey ts = .ok r) :
    ∃ l, Key l r.value ∧ Spells [l] ts r.rest := by
  unfold readKey at h
  split at h
  · next key source rest =>
      cases h
      exact ⟨_, .string key, source, rest, rfl, rfl⟩
  · next key source rest =>
      cases h
      exact ⟨_, .word key, source, rest, rfl, rfl⟩
  · cases h

theorem converts_of_word {limits : Limits} {depth : Nat} {word : String} {source : List Char}
    {rest : List Token} {r : Read Token Value (⟨.word word, source⟩ :: rest)}
    (hword : wordValue? word = none)
    (h : readValue limits depth (⟨.word word, source⟩ :: rest) = .ok r) :
    word = "convert" ∧ ∃ source' rest', rest = ⟨.mark .openParen, source'⟩ :: rest' := by
  rw [readValue, hword] at h
  cases rest with
  | nil => cases h
  | cons t rest =>
      obtain ⟨l, source'⟩ := t
      cases l with
      | mark m =>
          cases m with
          | openParen =>
              dsimp only at h
              split at h
              · next hconvert => exact ⟨hconvert, source', rest, rfl⟩
              · cases h
          | _ => cases h
      | _ => cases h

section Sound

variable {limits : Limits}

mutual

theorem literal_of_readValue {depth : Nat} {ts : List Token} {r : Read Token Value ts}
    (h : readValue limits depth ts = .ok r) :
    ∃ ls, Literal limits depth ls r.value ∧ Spells ls ts r.rest := by
  have hread := h
  unfold readValue at h
  split at h
  · next s source rest =>
      cases h
      exact ⟨_, .string s, source, rest, rfl, rfl⟩
  · next i source rest =>
      cases h
      exact ⟨_, .int i, source, rest, rfl, rfl⟩
  · next x source rest =>
      cases h
      exact ⟨_, .decimal x, source, rest, rfl, rfl⟩
  · next name source rest =>
      cases h
      exact ⟨_, .param name, source, rest, rfl, rfl⟩
  · next word source rest =>
      cases hword : wordValue? word with
      | some v =>
          rw [hword] at h
          cases h
          exact ⟨_, .word hword, source, rest, rfl, rfl⟩
      | none =>
          obtain ⟨rfl, source', rest', rfl⟩ := converts_of_word hword hread
          rw [hword] at h
          simp only [if_pos, Outcome.bind_eq_ok, deeper_eq_ok, Except.ok.injEq] at h
          obtain ⟨_, ⟨hdepth, rfl⟩, r', hr, rfl⟩ := h
          obtain ⟨ls, v, name, t, hv, hclosed, ht, hw, hs⟩ := conversion_of_readConversion hr
          exact ⟨_, .conversion hdepth hv hclosed ht hw, .cons (.cons hs)⟩
  · next source rest =>
      simp only [Outcome.bind_eq_ok, deeper_eq_ok, Except.ok.injEq] at h
      obtain ⟨_, ⟨hdepth, rfl⟩, r', hr, rfl⟩ := h
      obtain ⟨ls, hv, hs⟩ := braces_of_readBraces hr
      exact ⟨_, .braces hdepth hv, .cons hs⟩
  · next source rest =>
      simp only [Outcome.bind_eq_ok, deeper_eq_ok, Except.ok.injEq] at h
      obtain ⟨_, ⟨hdepth, rfl⟩, r', hr, rfl⟩ := h
      obtain ⟨ls, hv, hs⟩ := brackets_of_readBrackets hdepth hr
      exact ⟨_, hv, .cons hs⟩
  · cases h
termination_by (ts.length, 0)

theorem braces_of_readBraces {depth : Nat} {ts : List Token} {r : Read Token Value ts}
    (h : readBraces limits depth ts = .ok r) :
    ∃ ls, Braces limits depth ls r.value ∧ Spells ls ts r.rest := by
  unfold readBraces at h
  split at h
  · next source rest =>
      cases h
      exact ⟨_, .empty, source, rest, rfl, rfl⟩
  · split at h
    · simp only [Outcome.map_eq_ok] at h
      obtain ⟨r', hr, rfl⟩ := h
      obtain ⟨ls, hcs, hs⟩ := entries_of_readEntries hr
      exact ⟨_, .entries hcs, hs⟩
    · simp only [Outcome.map_eq_ok] at h
      obtain ⟨r', hr, rfl⟩ := h
      obtain ⟨ls, hvs, hs⟩ := items_of_readItems hr
      exact ⟨_, .items hvs, hs⟩
termination_by (ts.length, 2)

theorem brackets_of_readBrackets {depth : Nat} {ts : List Token} {r : Read Token Value ts}
    (hdepth : depth < limits.literalDepth) (h : readBrackets limits (depth + 1) ts = .ok r) :
    ∃ ls, Literal limits depth (.mark .openBracket :: ls) r.value ∧ Spells ls ts r.rest := by
  unfold readBrackets at h
  split at h
  · next source rest =>
      cases h
      exact ⟨_, .noItems hdepth, source, rest, rfl, rfl⟩
  · simp only [Outcome.map_eq_ok] at h
    obtain ⟨r', hr, rfl⟩ := h
    obtain ⟨ls, hvs, hs⟩ := items_of_readItems hr
    exact ⟨_, .items hdepth hvs, hs⟩
termination_by (ts.length, 2)

theorem items_of_readItems {depth : Nat} {close : Mark} {ts : List Token}
    {r : Read Token (List Value) ts} (h : readItems limits depth close ts = .ok r) :
    ∃ ls, Items limits depth ls r.value ∧ Spells (ls ++ [.mark close]) ts r.rest := by
  unfold readItems at h
  simp only [Outcome.bind_eq_ok] at h
  obtain ⟨⟨v, rest, hlt⟩, hv, h⟩ := h
  obtain ⟨ls, hv, hs⟩ := literal_of_readValue hv
  dsimp only at h hv hs
  split at h
  · next u rest' hlt' hcomma =>
      simp only [Outcome.bind_eq_ok, Except.ok.injEq] at h
      obtain ⟨r', hr, rfl⟩ := h
      obtain ⟨ls', hvs, hs'⟩ := items_of_readItems hr
      refine ⟨_, .cons hv hvs, ?_⟩
      simpa using hs.append ((spells_of_comma? hcomma).append hs')
  · simp only [Outcome.bind_eq_ok, Except.ok.injEq] at h
    obtain ⟨closed, hclosed, rfl⟩ := h
    exact ⟨_, .one hv, hs.append (gives_expectMark.1 ⟨closed.shorter, hclosed⟩)⟩
termination_by (ts.length, 1)

theorem entries_of_readEntries {depth : Nat} {ts : List Token} {r : Read Token (List Column) ts}
    (h : readEntries limits depth ts = .ok r) :
    ∃ ls, Entries limits depth ls r.value ∧ Spells (ls ++ [.mark .closeBrace]) ts r.rest := by
  unfold readEntries at h
  simp only [Outcome.bind_eq_ok] at h
  obtain ⟨⟨key, rest₁, hlt₁⟩, hkey, ⟨u, rest₂, hlt₂⟩, hcolon, ⟨v, rest₃, hlt₃⟩, hv, h⟩ := h
  dsimp only at hlt₂ hlt₃
  obtain ⟨l, hkey, hs₁⟩ := key_of_readKey hkey
  have hs₂ := gives_expectMark.1 ⟨_, hcolon⟩
  have : rest₂.length < ts.length := by omega
  obtain ⟨ls, hv, hs₃⟩ := literal_of_readValue hv
  dsimp only at h hkey hv hs₁ hs₂ hs₃
  have hs := hs₁.append (hs₂.append hs₃)
  split at h
  · next u rest' hlt' hcomma =>
      simp only [Outcome.bind_eq_ok, Except.ok.injEq] at h
      obtain ⟨r', hr, rfl⟩ := h
      have : rest'.length < ts.length := by omega
      obtain ⟨ls', hcs, hs'⟩ := entries_of_readEntries hr
      refine ⟨_, .cons hkey hv hcs, ?_⟩
      simpa using hs.append ((spells_of_comma? hcomma).append hs')
  · simp only [Outcome.bind_eq_ok, Except.ok.injEq] at h
    obtain ⟨closed, hclosed, rfl⟩ := h
    refine ⟨_, .one hkey hv, ?_⟩
    simpa using hs.append (gives_expectMark.1 ⟨closed.shorter, hclosed⟩)
termination_by (ts.length, 1)

theorem conversion_of_readConversion {depth : Nat} {ts : List Token} {r : Read Token Value ts}
    (h : readConversion limits depth ts = .ok r) :
    ∃ ls v name t, Literal limits depth ls v ∧ v.params = [] ∧ ScalarType.ofName name = .ok t ∧
      v.convert t = .ok r.value ∧
      Spells (ls ++ [.mark .comma, .word name, .mark .closeParen]) ts r.rest := by
  unfold readConversion at h
  simp only [Outcome.bind_eq_ok] at h
  obtain ⟨⟨v, rest₁, hlt₁⟩, hv, h⟩ := h
  obtain ⟨ls, hv, hs₁⟩ := literal_of_readValue hv
  dsimp only at h hv hs₁
  split at h
  · cases h
  · next hclosed =>
      simp only [Outcome.bind_eq_ok, Except.ok.injEq] at h
      obtain ⟨⟨u, rest₂, hlt₂⟩, hcomma, ⟨name, rest₃, hlt₃⟩, hname, closed, hparen, t, ht, w, hw,
        rfl⟩ := h
      have hs₂ := gives_expectMark.1 ⟨_, hcomma⟩
      have hs₃ := (gives_expectWord "type name").1 ⟨_, hname⟩
      have hs₄ := gives_expectMark.1 ⟨closed.shorter, hparen⟩
      exact ⟨ls, v, name, t, hv, by simpa using hclosed, ht, hw,
        hs₁.append (hs₂.append (hs₃.append hs₄))⟩
termination_by (ts.length, 1)

end

end Sound

section Complete

variable {limits : Limits} {ts mid rest : List Token}

theorem readKey_of_key {l : Lexeme} {key : String} (h : Key l key) (hs : Spells [l] ts rest) :
    Gives (readKey ts) key rest := by
  obtain ⟨source, rest, rfl, rfl⟩ := hs
  cases h <;> exact ⟨Nat.lt_succ_self _, rfl⟩

theorem comma?_of_mark {m : Mark} {ls : List Lexeme} (hm : m ≠ .comma)
    (h : Spells (.mark m :: ls) ts rest) : comma? ts = none := by
  obtain ⟨source, ts, rfl, -⟩ := h
  cases m <;> first | rfl | exact absurd rfl hm

/-- How the lexemes of a value begin: there is but one, or they open a call or a bracket. -/
inductive Opening : List Lexeme → Prop
  | single {l : Lexeme} (h : ∀ m, l ≠ .mark m) : Opening [l]
  | call (name : String) (ls : List Lexeme) : Opening (.word name :: .mark .openParen :: ls)
  | brace (ls : List Lexeme) : Opening (.mark .openBrace :: ls)
  | bracket (ls : List Lexeme) : Opening (.mark .openBracket :: ls)

namespace Opening

variable {ls ls' : List Lexeme} {m : Mark}

theorem mark_opens {source : List Char} (h : Opening ls)
    (hs : Spells ls (⟨.mark m, source⟩ :: ts) rest) : m = .openBrace ∨ m = .openBracket := by
  cases h with
  | single h =>
      obtain ⟨source, ts, heq, -⟩ := hs
      cases heq
      exact absurd rfl (h m)
  | call =>
      obtain ⟨source, ts, heq, -⟩ := hs
      cases heq
  | brace | bracket =>
      obtain ⟨source, ts, heq, -⟩ := hs
      cases heq
      simp

theorem startsEntry_eq_false (h : Opening ls) (hm : m ≠ .colon) (hs : Spells ls ts mid)
    (hmid : Spells (.mark m :: ls') mid rest) : startsEntry ts = false := by
  obtain ⟨source', mid, rfl, -⟩ := hmid
  cases h with
  | @single l h =>
      obtain ⟨source, ts, rfl, rfl⟩ := hs
      cases l with
      | string | word => cases m <;> first | rfl | exact absurd rfl hm
      | _ => rfl
  | call =>
      obtain ⟨source, ts, rfl, source', ts, rfl, hs⟩ := hs
      rfl
  | brace | bracket =>
      obtain ⟨source, ts, rfl, hs⟩ := hs
      rfl

end Opening

theorem Literal.opening {depth : Nat} {ls : List Lexeme} {v : Value}
    (h : Literal limits depth ls v) : Opening ls := by
  cases h with
  | string | int | decimal | param | word => exact .single fun _ h => nomatch h
  | conversion => exact .call _ _
  | braces => exact .brace _
  | noItems | items => exact .bracket _

theorem Items.startsEntry_eq_false {depth : Nat} {ls : List Lexeme} {vs : List Value}
    (h : Items limits depth ls vs) (hs : Spells (ls ++ [.mark .closeBrace]) ts rest) :
    startsEntry ts = false := by
  cases h with
  | one hv =>
      obtain ⟨mid, hs, hclose⟩ := hs.split
      exact hv.opening.startsEntry_eq_false (by simp) hs hclose
  | cons hv hvs =>
      rw [List.append_assoc] at hs
      obtain ⟨mid, hs, hcomma⟩ := hs.split
      exact hv.opening.startsEntry_eq_false (by simp) hs hcomma

theorem Items.mark_opens {depth : Nat} {ls ls' : List Lexeme} {vs : List Value} {m : Mark}
    {source : List Char} (h : Items limits depth ls vs)
    (hs : Spells (ls ++ ls') (⟨.mark m, source⟩ :: ts) rest) :
    m = .openBrace ∨ m = .openBracket := by
  cases h with
  | one hv =>
      obtain ⟨mid, hs, -⟩ := hs.split
      exact hv.opening.mark_opens hs
  | cons hv hvs =>
      rw [List.append_assoc] at hs
      obtain ⟨mid, hs, -⟩ := hs.split
      exact hv.opening.mark_opens hs

theorem Entries.startsEntry_eq_true {depth : Nat} {ls ls' : List Lexeme} {cs : List Column}
    (h : Entries limits depth ls cs) (hs : Spells (ls ++ ls') ts rest) : startsEntry ts = true := by
  cases h with
  | one hkey hv =>
      obtain ⟨source, ts, rfl, source', ts, rfl, hs⟩ := hs
      cases hkey <;> rfl
  | cons hkey hv hcs =>
      obtain ⟨source, ts, rfl, source', ts, rfl, hs⟩ := hs
      cases hkey <;> rfl

mutual

theorem Literal.gives : ∀ {depth : Nat} {ls : List Lexeme} {v : Value} {ts rest : List Token},
    Literal limits depth ls v → Spells ls ts rest → Gives (readValue limits depth ts) v rest
  | _, _, _, _, _, .string s, ⟨source, _, rfl, rfl⟩ => ⟨Nat.lt_succ_self _, by rw [readValue]; rfl⟩
  | _, _, _, _, _, .int i, ⟨source, _, rfl, rfl⟩ => ⟨Nat.lt_succ_self _, by rw [readValue]; rfl⟩
  | _, _, _, _, _, .decimal x, ⟨source, _, rfl, rfl⟩ => ⟨Nat.lt_succ_self _, by rw [readValue]; rfl⟩
  | _, _, _, _, _, .param name, ⟨source, _, rfl, rfl⟩ =>
      ⟨Nat.lt_succ_self _, by rw [readValue]; rfl⟩
  | _, _, _, _, _, .word hword, ⟨source, _, rfl, rfl⟩ =>
      ⟨Nat.lt_succ_self _, by rw [readValue, hword]; rfl⟩
  | _, _, _, _, _, .conversion hdepth hv hclosed ht hw, ⟨source, _, rfl, source', _, rfl, hs⟩ => by
      obtain ⟨mid, hs', hend⟩ := Spells.split hs
      obtain ⟨mid₁, hcomma, hend⟩ := hend.uncons
      obtain ⟨mid₂, hname, hclose⟩ := hend.uncons
      obtain ⟨_, hread⟩ := hv.gives hs'
      obtain ⟨_, hcomma⟩ := gives_expectMark.2 hcomma
      obtain ⟨_, hname⟩ := (gives_expectWord "type name").2 hname
      obtain ⟨_, hclose⟩ := gives_expectMark.2 hclose
      have hconvert : wordValue? "convert" = none := rfl
      rw [readValue]
      simp only [hconvert, if_pos, deeper_of_lt .literalDepth hdepth, readConversion, hread,
        hclosed, ne_eq, not_true, if_false, hcomma, hname, hclose, ht, hw, Outcome.ok_bind]
      exact ⟨_, rfl⟩
  | _, _, _, _, _, .braces hdepth hv, ⟨source, _, rfl, hs⟩ => by
      obtain ⟨hlt, hread⟩ := hv.gives hs
      rw [readValue]
      simp only [deeper_of_lt .literalDepth hdepth, hread, Outcome.ok_bind]
      exact ⟨_, rfl⟩
  | _, _, _, _, _, .noItems hdepth, ⟨source, _, rfl, source', _, rfl, rfl⟩ => by
      rw [readValue]
      simp only [deeper_of_lt .literalDepth hdepth, readBrackets, Outcome.ok_bind]
      exact ⟨_, rfl⟩
  | _, _, _, _, _, .items hdepth hvs, ⟨source, ts, rfl, hs⟩ => by
      obtain ⟨hlt, hread⟩ := hvs.gives (by simp) hs
      have hopen : ∀ source' rest, ts = ⟨.mark .closeBracket, source'⟩ :: rest → False := by
        rintro source' rest rfl
        simpa using hvs.mark_opens hs
      rw [readValue]
      simp only [deeper_of_lt .literalDepth hdepth, readBrackets.eq_2 _ _ _ hopen, hread,
        Outcome.ok_bind, Outcome.ok_map]
      exact ⟨_, rfl⟩

theorem Braces.gives : ∀ {depth : Nat} {ls : List Lexeme} {v : Value} {ts rest : List Token},
    Braces limits depth ls v → Spells ls ts rest → Gives (readBraces limits depth ts) v rest
  | _, _, _, _, _, .empty, ⟨source, _, rfl, rfl⟩ =>
      ⟨Nat.lt_succ_self _, by rw [readBraces]; rfl⟩
  | _, _, _, ts, _, .entries hcs, hs => by
      obtain ⟨hlt, hread⟩ := hcs.gives hs
      have hentry := hcs.startsEntry_eq_true hs
      have hopen : ∀ source rest, ts = ⟨.mark .closeBrace, source⟩ :: rest → False := by
        rintro source rest rfl
        cases hentry
      rw [readBraces.eq_2 _ _ _ hopen, if_pos hentry, hread]
      exact ⟨_, rfl⟩
  | _, _, _, ts, _, .items hvs, hs => by
      obtain ⟨hlt, hread⟩ := hvs.gives (by simp) hs
      have hopen : ∀ source rest, ts = ⟨.mark .closeBrace, source⟩ :: rest → False := by
        rintro source rest rfl
        simpa using hvs.mark_opens hs
      rw [readBraces.eq_2 _ _ _ hopen, hvs.startsEntry_eq_false hs, if_neg (by simp), hread]
      exact ⟨_, rfl⟩

theorem Items.gives : ∀ {depth : Nat} {ls : List Lexeme} {vs : List Value} {close : Mark}
    {ts rest : List Token}, Items limits depth ls vs → close ≠ .comma →
      Spells (ls ++ [.mark close]) ts rest → Gives (readItems limits depth close ts) vs rest
  | _, _, _, _, _, _, .one hv, hclose, hs => by
      obtain ⟨mid, hs, hend⟩ := hs.split
      obtain ⟨_, hread⟩ := hv.gives hs
      obtain ⟨_, hread'⟩ := gives_expectMark.2 hend
      rw [readItems]
      simp only [hread, comma?_of_mark hclose hend, hread', Outcome.ok_bind]
      exact ⟨_, rfl⟩
  | _, _, _, _, _, _, .cons hv hvs, hclose, hs => by
      obtain ⟨mid, hs, hend⟩ := hs.split
      obtain ⟨mid₁, hs, htail⟩ := hs.split
      obtain ⟨mid₂, hcomma, htail⟩ := htail.uncons
      obtain ⟨_, hread⟩ := hv.gives hs
      obtain ⟨_, hcomma⟩ := comma?_of_spells hcomma
      obtain ⟨_, hread'⟩ := hvs.gives hclose (htail.append hend)
      rw [readItems]
      simp only [hread, hcomma, hread', Outcome.ok_bind]
      exact ⟨_, rfl⟩

theorem Entries.gives : ∀ {depth : Nat} {ls : List Lexeme} {cs : List Column}
    {ts rest : List Token}, Entries limits depth ls cs →
      Spells (ls ++ [.mark .closeBrace]) ts rest → Gives (readEntries limits depth ts) cs rest
  | _, _, _, _, _, .one hkey hv, hs => by
      obtain ⟨mid, hs, hend⟩ := hs.split
      obtain ⟨mid₁, hk, hs⟩ := hs.uncons
      obtain ⟨mid₂, hcolon, hs⟩ := hs.uncons
      obtain ⟨_, hkey⟩ := readKey_of_key hkey hk
      obtain ⟨_, hcolon⟩ := gives_expectMark.2 hcolon
      obtain ⟨_, hread⟩ := hv.gives hs
      obtain ⟨_, hread'⟩ := gives_expectMark.2 hend
      rw [readEntries]
      simp only [hkey, hcolon, hread, comma?_of_mark (by simp) hend, hread', Outcome.ok_bind]
      exact ⟨_, rfl⟩
  | _, _, _, _, _, .cons hkey hv hcs, hs => by
      obtain ⟨mid, hs, hend⟩ := hs.split
      obtain ⟨mid₁, hk, hs⟩ := hs.uncons
      obtain ⟨mid₂, hcolon, hs⟩ := hs.uncons
      obtain ⟨mid₃, hs, htail⟩ := hs.split
      obtain ⟨mid₄, hcomma, htail⟩ := htail.uncons
      obtain ⟨_, hkey⟩ := readKey_of_key hkey hk
      obtain ⟨_, hcolon⟩ := gives_expectMark.2 hcolon
      obtain ⟨_, hread⟩ := hv.gives hs
      obtain ⟨_, hcomma⟩ := comma?_of_spells hcomma
      obtain ⟨_, hread'⟩ := hcs.gives (htail.append hend)
      rw [readEntries]
      simp only [hkey, hcolon, hread, hcomma, hread', Outcome.ok_bind]
      exact ⟨_, rfl⟩

end

end Complete

theorem gives_readValue_iff {limits : Limits} {depth : Nat} {ts rest : List Token} {v : Value} :
    Gives (readValue limits depth ts) v rest ↔
      ∃ ls, Literal limits depth ls v ∧ Spells ls ts rest := by
  constructor
  · rintro ⟨hlt, h⟩
    exact literal_of_readValue h
  · rintro ⟨ls, h, hs⟩
    exact h.gives hs

theorem expectEnd_eq_ok {ts : List Token} {u : Unit} : expectEnd ts = .ok u ↔ ts = [] := by
  unfold expectEnd
  split <;> simp [*]

theorem literal_eq_ok {s : String} {v : Value} :
    literal s = .ok v ↔ v.isParam = false ∧
      ∃ ts ls, Token.ofChars s.toList = .ok ts ∧ Literal {} 0 ls v ∧ Spells ls ts [] := by
  constructor
  · intro h
    obtain ⟨ts, hts, h⟩ := Outcome.bind_eq_ok.1 h
    obtain ⟨⟨w, rest, hlt⟩, hread, h⟩ := Outcome.bind_eq_ok.1 h
    obtain ⟨_, hend, h⟩ := Outcome.bind_eq_ok.1 h
    cases expectEnd_eq_ok.1 hend
    obtain ⟨ls, hls, hs⟩ := literal_of_readValue hread
    dsimp only at h
    split at h
    · cases h
    · next hparam =>
        cases h
        refine ⟨?_, ts, ls, hts, hls, hs⟩
        cases v <;> first | rfl | exact absurd rfl (hparam _)
  · rintro ⟨hparam, ts, ls, hts, hls, hs⟩
    obtain ⟨hlt, hread⟩ := gives_readValue_iff.2 ⟨ls, hls, hs⟩
    unfold literal
    simp only [hts, hread, Outcome.ok_bind]
    cases v <;> first | rfl | cases hparam

end RecordQuery.Written
