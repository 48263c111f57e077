import RecordQuery.Proofs.Grammar.Statement

namespace RecordQuery.Written

open Token (Spells)

variable {limits : Limits} {ts rest : List Token}

inductive Assignments (limits : Limits) : List Lexeme → List Column → Prop
  | one {name : String} {ls : List Lexeme} {v : Value} (hv : Literal limits 0 ls v) :
      Assignments limits (.word name :: .mark .equal :: ls) [⟨name, v⟩]
  | cons {name : String} {ls ls' : List Lexeme} {v : Value} {cs : List Column}
      (hv : Literal limits 0 ls v) (hcs : Assignments limits ls' cs) :
      Assignments limits (.word name :: .mark .equal :: (ls ++ .mark .comma :: ls'))
        (⟨name, v⟩ :: cs)

inductive Body (limits : Limits) : List Lexeme → List Column → Prop
  | payload {ls : List Lexeme} {cs : List Column} (h : Braces limits 0 ls (.document cs)) :
      Body limits (.mark .openBrace :: ls) cs
  | enclosed {ls : List Lexeme} {cs : List Column} (h : Braces limits 0 ls (.document cs)) :
      Body limits (.mark .openParen :: .mark .openBrace :: (ls ++ [.mark .closeParen])) cs
  | assigned {ls : List Lexeme} {cs : List Column} (h : Assignments limits ls cs) :
      Body limits (.mark .openParen :: (ls ++ [.mark .closeParen])) cs

theorem assignments_of_readAssignments {ts : List Token} {r : Read Token (List Column) ts}
    (h : readAssignments limits ts = .ok r) :
    ∃ ls, Assignments limits ls r.value ∧ Spells (ls ++ [.mark .closeParen]) ts r.rest := by
  unfold readAssignments at h
  simp only [Outcome.bind_eq_ok] at h
  obtain ⟨⟨name, rest₁, hlt₁⟩, hname, ⟨u, rest₂, hlt₂⟩, hequal, ⟨v, rest₃, hlt₃⟩, hv, h⟩ := h
  dsimp only at hlt₂ hlt₃
  have hs₁ := (gives_expectWord "field name").1 ⟨_, hname⟩
  have hs₂ := gives_expectMark.1 ⟨_, hequal⟩
  obtain ⟨ls, hv, hs₃⟩ := literal_of_readValue hv
  dsimp only at h hv hs₁ hs₂ hs₃
  have hs := hs₁.append (hs₂.append hs₃)
  split at h
  · next u rest' hlt' hcomma =>
      simp only [Outcome.bind_eq_ok, Except.ok.injEq] at h
      obtain ⟨r', hr, rfl⟩ := h
      have : rest'.length < ts.length := by omega
      obtain ⟨ls', hcs, hs'⟩ := assignments_of_readAssignments hr
      refine ⟨_, .cons hv hcs, ?_⟩
      simpa using hs.append ((spells_of_comma? hcomma).append hs')
  · simp only [Outcome.bind_eq_ok, Except.ok.injEq] at h
    obtain ⟨closed, hclosed, rfl⟩ := h
    refine ⟨_, .one hv, ?_⟩
    simpa using hs.append (gives_expectMark.1 ⟨closed.shorter, hclosed⟩)
termination_by ts.length

theorem Assignments.gives {ls : List Lexeme} {cs : List Column} (h : Assignments limits ls cs)
    (hs : Spells (ls ++ [.mark .closeParen]) ts rest) :
    Gives (readAssignments limits ts) cs rest := by
  induction h generalizing ts with
  | one hv =>
      obtain ⟨mid, hs, hend⟩ := hs.split
      obtain ⟨mid₁, hname, hs⟩ := hs.uncons
      obtain ⟨mid₂, hequal, hs⟩ := hs.uncons
      obtain ⟨_, hname⟩ := (gives_expectWord "field name").2 hname
      obtain ⟨_, hequal⟩ := gives_expectMark.2 hequal
      obtain ⟨_, hread⟩ := hv.gives hs
      obtain ⟨_, hclose⟩ := gives_expectMark.2 hend
      rw [readAssignments]
      simp only [hname, hequal, hread, comma?_of_mark (by simp) hend, hclose, Outcome.ok_bind]
      exact ⟨_, rfl⟩
  | cons hv hcs ih =>
      obtain ⟨mid, hs, hend⟩ := hs.split
      obtain ⟨mid₁, hname, hs⟩ := hs.uncons
      obtain ⟨mid₂, hequal, hs⟩ := hs.uncons
      obtain ⟨mid₃, hs, htail⟩ := hs.split
      obtain ⟨mid₄, hcomma, htail⟩ := htail.uncons
      obtain ⟨_, hname⟩ := (gives_expectWord "field name").2 hname
      obtain ⟨_, hequal⟩ := gives_expectMark.2 hequal
      obtain ⟨_, hread⟩ := hv.gives hs
      obtain ⟨_, hcomma⟩ := comma?_of_spells hcomma
      obtain ⟨_, hread'⟩ := ih (htail.append hend)
      rw [readAssignments]
      simp only [hname, hequal, hread, hcomma, hread', Outcome.ok_bind]
      exact ⟨_, rfl⟩

theorem braces_of_readPayload {r : Read Token (List Column) ts}
    (h : readPayload limits ts = .ok r) :
    ∃ ls, Braces limits 0 ls (.document r.value) ∧ Spells ls ts r.rest := by
  obtain ⟨⟨v, rest, hlt⟩, hv, h⟩ := Outcome.bind_eq_ok.1 h
  obtain ⟨ls, hbraces, hs⟩ := braces_of_readBraces hv
  dsimp only at h
  split at h
  · cases h
    exact ⟨ls, hbraces, hs⟩
  · cases h

theorem gives_readPayload {ls : List Lexeme} {cs : List Column}
    (h : Braces limits 0 ls (.document cs)) (hs : Spells ls ts rest) :
    Gives (readPayload limits ts) cs rest := by
  obtain ⟨hlt, hread⟩ := h.gives hs
  exact ⟨hlt, Outcome.bind_eq_ok.2 ⟨_, hread, rfl⟩⟩

theorem body_of_readBody {r : Read Token (List Column) ts} (h : readBody limits ts = .ok r) :
    ∃ ls, Body limits ls r.value ∧ Spells ls ts r.rest := by
  unfold readBody at h
  split at h
  · obtain ⟨r', hr, rfl⟩ := Outcome.map_eq_ok.1 h
    obtain ⟨ls, hbraces, hs⟩ := braces_of_readPayload hr
    exact ⟨_, .payload hbraces, .cons hs⟩
  · obtain ⟨⟨columns, rest, hlt⟩, hpayload, h⟩ := Outcome.bind_eq_ok.1 h
    obtain ⟨closed, hclosed, h⟩ := Outcome.bind_eq_ok.1 h
    cases h
    obtain ⟨ls, hbraces, hs⟩ := braces_of_readPayload hpayload
    have hclose := gives_expectMark.1 ⟨closed.shorter, hclosed⟩
    exact ⟨_, .enclosed hbraces, .cons (.cons (hs.append hclose))⟩
  · obtain ⟨r', hr, rfl⟩ := Outcome.map_eq_ok.1 h
    obtain ⟨ls, hcs, hs⟩ := assignments_of_readAssignments hr
    exact ⟨_, .assigned hcs, .cons hs⟩
  · cases h

theorem Body.gives {ls : List Lexeme} {cs : List Column} (h : Body limits ls cs)
    (hs : Spells ls ts rest) : Gives (readBody limits ts) cs rest := by
  cases h with
  | payload h =>
      obtain ⟨source, ts, rfl, hs⟩ := hs
      obtain ⟨hlt, hread⟩ := gives_readPayload h hs
      exact ⟨_, by rw [readBody, hread]; rfl⟩
  | enclosed h =>
      obtain ⟨source, ts, rfl, source', ts, rfl, hs⟩ := hs
      obtain ⟨mid, hs, hclose⟩ := Spells.split hs
      obtain ⟨hlt, hread⟩ := gives_readPayload h hs
      obtain ⟨_, hclose⟩ := gives_expectMark.2 hclose
      rw [readBody]
      simp only [hread, hclose, Outcome.ok_bind]
      exact ⟨_, rfl⟩
  | assigned h =>
      obtain ⟨source, ts, rfl, hs⟩ := hs
      -- a word stands behind the parenthesis, so this is not a document in parentheses
      have hopen : ∀ source' rest, ts = ⟨.mark .openBrace, source'⟩ :: rest → False := by
        rintro source' rest rfl
        cases h <;> obtain ⟨_, _, heq, -⟩ := hs <;> cases heq
      obtain ⟨hlt, hread⟩ := h.gives hs
      exact ⟨_, by rw [readBody.eq_3 limits source ts hopen, hread]; rfl⟩

theorem gives_readBody_iff {cs : List Column} :
    Gives (readBody limits ts) cs rest ↔ ∃ ls, Body limits ls cs ∧ Spells ls ts rest := by
  constructor
  · rintro ⟨hlt, h⟩
    exact body_of_readBody h
  · rintro ⟨ls, h, hs⟩
    exact h.gives hs

theorem gives_readTtl_iff {ttl : Ttl} :
    Gives (readTtl ts) ttl rest ↔ ∃ n mid unit u, Gives (readCount "ttl" ts) n mid ∧
      Spells [.word unit] mid rest ∧ TimeUnit.ofName? unit = some u ∧
      Ttl.ofAmount? n.toNat u = some ttl := by
  unfold readTtl
  constructor
  · rintro ⟨hlt, h⟩
    obtain ⟨⟨n, mid, hlt₁⟩, hcount, h⟩ := Outcome.bind_eq_ok.1 h
    obtain ⟨⟨unit, rest', hlt₂⟩, hunit, h⟩ := Outcome.bind_eq_ok.1 h
    dsimp only at h
    split at h
    · cases h
    · next u hu =>
        split at h
        · cases h
        · next ttl' httl =>
            cases h
            exact ⟨n, mid, unit, u, ⟨hlt₁, hcount⟩,
              (gives_expectWord "ttl unit").1 ⟨hlt₂, hunit⟩, hu, httl⟩
  · rintro ⟨n, mid, unit, u, ⟨hlt₁, hcount⟩, hunit, hu, httl⟩
    obtain ⟨_, hunit⟩ := (gives_expectWord "ttl unit").2 hunit
    simp only [hcount, hunit, hu, httl, Outcome.ok_bind]
    exact ⟨_, rfl⟩

end RecordQuery.Written
