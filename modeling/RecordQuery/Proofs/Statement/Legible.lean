import RecordQuery.Proofs.Condition.Normal
import RecordQuery.Proofs.Grammar.Statement

namespace RecordQuery

open Token (IsWord Spelled Spells)

structure Select.Legible (q : Selection) : Prop where
  entity : IsWord q.entity
  fields : ∀ name ∈ q.fields, IsWord name
  condition : ∀ c ∈ q.condition, c.Readable
  sorts : ∀ s ∈ q.sorts, IsWord s.name
  skip : q.skip.toNat < Written.countBound
  limit : q.limit.toNat < Written.countBound

structure Delete.Legible (q : Deletion) : Prop where
  entity : IsWord q.entity
  fields : ∀ name ∈ q.fields, IsWord name
  first : q.fields.head? ≠ some "from"
  condition : ∀ c ∈ q.condition, c.Readable

def Command.Legible : Command → Prop
  | .select q => q.Legible
  | .delete q => q.Legible
  | .insert .. | .update _ => False

namespace Written

variable {limits : Limits} {ts : List Token}

theorem mem_commaWords {name : String} {names : List String} (h : name ∈ names) :
    .word name ∈ commaWords names := by
  match names, h with
  | [first], h =>
      rw [List.mem_singleton.1 h]
      exact List.mem_cons_self
  | first :: next :: names, h =>
      rw [commaWords_cons_cons]
      rcases List.mem_cons.1 h with rfl | h
      · exact List.mem_cons_self
      · exact List.mem_cons_of_mem _ (List.mem_cons_of_mem _ (mem_commaWords h))

theorem spells_head {names : List String} {rest : List Token} (hne : names ≠ [])
    (hs : Spells (commaWords names) ts rest) : ∃ rest, Spells [.word (names.head hne)] ts rest := by
  match names, hne with
  | [first], _ => exact ⟨_, hs⟩
  | first :: next :: names, _ =>
      rw [commaWords_cons_cons] at hs
      obtain ⟨mid, hs, -⟩ := hs.uncons
      exact ⟨mid, hs⟩

theorem isWord_of_readWords {what : String} {r : Read Token (List String) ts}
    (hts : ∀ t ∈ ts, Spelled t.lexeme) (h : readWords what ts = .ok r) :
    (∀ name ∈ r.value, IsWord name) ∧ ∀ t ∈ r.rest, Spelled t.lexeme := by
  obtain ⟨-, -, hs⟩ := words_of_readWords h
  obtain ⟨hls, hrest⟩ := hs.forall_lexeme hts
  exact ⟨fun name hname => hls _ (mem_commaWords hname), hrest⟩

theorem isWord_of_readProjection {r : Read Token (List String) ts}
    (hts : ∀ t ∈ ts, Spelled t.lexeme) (h : readProjection ts = .ok r) :
    (∀ name ∈ r.value, IsWord name) ∧ ∀ t ∈ r.rest, Spelled t.lexeme := by
  unfold readProjection at h
  split at h
  · cases h
    exact ⟨by simp, (List.forall_mem_cons.1 hts).2⟩
  · exact isWord_of_readWords hts h

theorem isWord_of_readSource {verb : Verb} {r : Read Token String ts}
    (hts : ∀ t ∈ ts, Spelled t.lexeme) (h : readSource verb ts = .ok r) :
    IsWord r.value ∧ ∀ t ∈ r.rest, Spelled t.lexeme := by
  obtain ⟨hls, hrest⟩ := (gives_readSource.1 ⟨r.shorter, h⟩).forall_lexeme hts
  exact ⟨hls (.word r.value) (by simp), hrest⟩

theorem spelled_of_expectKeyword {keyword : String} {r : Read Token Unit ts}
    (hts : ∀ t ∈ ts, Spelled t.lexeme) (h : expectKeyword keyword ts = .ok r) :
    ∀ t ∈ r.rest, Spelled t.lexeme :=
  ((gives_expectKeyword.1 ⟨r.shorter, h⟩).forall_lexeme hts).2

theorem readable_of_readWhere {p : Partly Token (Option Clause) ts}
    (hts : ∀ t ∈ ts, Spelled t.lexeme) (h : readWhere limits ts = .ok p) :
    (∀ {tree}, Clause.resolveSome (fun name => name) p.value = .ok tree →
      ∀ c ∈ tree, c.Readable) ∧ ∀ t ∈ p.rest, Spelled t.lexeme := by
  have hskip := exists_spells_skipKeyword "where" ts
  unfold readWhere at h
  split at h
  · cases h
    refine ⟨fun htree c hc => ?_, hts⟩
    cases htree
    cases hc
  · next rest hle heq =>
      obtain ⟨r, hr, rfl⟩ := Outcome.map_eq_ok.1 h
      rw [heq] at hskip
      obtain ⟨ls, hs⟩ := hskip
      obtain ⟨-, hrest⟩ := hs.forall_lexeme hts
      refine ⟨fun htree c hc => ?_, ?_⟩
      · obtain ⟨tree, hresolve, rfl⟩ := Outcome.map_eq_ok.1 htree
        cases hc
        exact readable_of_readClause hrest hr hresolve
      · obtain ⟨-, ls', _, _, _, _, hs'⟩ := gives_readClause_iff.1 ⟨r.shorter, hr⟩
        exact (hs'.forall_lexeme hrest).2

structure Window.Legible (w : Window) : Prop where
  sorts : ∀ s ∈ w.sorts.getD [], IsWord s.name
  skip : (w.skip.getD 0).toNat < countBound
  limit : (w.limit.getD 0).toNat < countBound

theorem toNat_of_readCount {clause : String} {r : Read Token UInt64 ts}
    (hts : ∀ t ∈ ts, Spelled t.lexeme) (h : readCount clause ts = .ok r) :
    r.value.toNat < countBound ∧ ∀ t ∈ r.rest, Spelled t.lexeme := by
  obtain ⟨i, hi, hn, hs⟩ := (gives_readCount clause).1 ⟨r.shorter, h⟩
  refine ⟨?_, (hs.forall_lexeme hts).2⟩
  have hlt := i.toInt_lt
  have hnat : i.toInt.toNat < countBound := by
    unfold countBound
    omega
  rw [hn, UInt64.toNat_ofNat_of_lt' (Nat.lt_trans hnat (by decide))]
  exact hnat

theorem isWord_of_readSorts {r : Read Token (List SortKey) ts}
    (hts : ∀ t ∈ ts, Spelled t.lexeme) (h : readSorts ts = .ok r) :
    (∀ s ∈ r.value, IsWord s.name) ∧ ∀ t ∈ r.rest, Spelled t.lexeme := by
  obtain ⟨ls, hs, hnames⟩ := names_of_readSorts h
  obtain ⟨hls, hrest⟩ := hs.forall_lexeme hts
  exact ⟨fun s hmem => hls _ (hnames s hmem), hrest⟩

theorem legible_of_readWindow {w w' : Window} {ts : List Token}
    (hts : ∀ t ∈ ts, Spelled t.lexeme) (hw : w.Legible) (h : readWindow w ts = .ok w') :
    w'.Legible := by
  unfold readWindow at h
  split at h
  · next word source rest =>
      have hrest := (List.forall_mem_cons.1 hts).2
      split at h
      · split at h
        · cases h
        · obtain ⟨⟨u, rest₁, hlt₁⟩, hby, h⟩ := Outcome.bind_eq_ok.1 h
          obtain ⟨⟨sorts, rest₂, hlt₂⟩, hsorts, h⟩ := Outcome.bind_eq_ok.1 h
          have hrest₁ : ∀ t ∈ rest₁, Spelled t.lexeme := spelled_of_expectKeyword hrest hby
          obtain ⟨hnames, hrest₂⟩ := isWord_of_readSorts hrest₁ hsorts
          have hw' : Window.Legible { w with sorts := some sorts } := ⟨hnames, hw.skip, hw.limit⟩
          exact legible_of_readWindow hrest₂ hw' h
      · split at h
        · split at h
          · cases h
          · obtain ⟨⟨n, rest₁, hlt₁⟩, hcount, h⟩ := Outcome.bind_eq_ok.1 h
            obtain ⟨hn, hrest₁⟩ := toNat_of_readCount hrest hcount
            have hw' : Window.Legible { w with skip := some n } := ⟨hw.sorts, hn, hw.limit⟩
            exact legible_of_readWindow hrest₁ hw' h
        · split at h
          · split at h
            · cases h
            · obtain ⟨⟨n, rest₁, hlt₁⟩, hcount, h⟩ := Outcome.bind_eq_ok.1 h
              obtain ⟨hn, hrest₁⟩ := toNat_of_readCount hrest hcount
              have hw' : Window.Legible { w with limit := some n } := ⟨hw.sorts, hw.skip, hn⟩
              exact legible_of_readWindow hrest₁ hw' h
          · cases h
  · cases h
    exact hw
  · cases h
termination_by ts.length
decreasing_by all_goals subst_vars; simp only [List.length_cons]; omega

theorem legible_of_readSelect {w : Written} {s : Command} (hts : ∀ t ∈ ts, Spelled t.lexeme)
    (h : readSelect limits ts = .ok w) (hs : w.resolve .identity = .ok s) : s.Legible := by
  obtain ⟨verb, hverb, h⟩ := Outcome.bind_eq_ok.1 h
  obtain ⟨fields, hfields, h⟩ := Outcome.bind_eq_ok.1 h
  obtain ⟨entity, hentity, h⟩ := Outcome.bind_eq_ok.1 h
  obtain ⟨condition, hcondition, h⟩ := Outcome.bind_eq_ok.1 h
  obtain ⟨window, hwindow, h⟩ := Outcome.bind_eq_ok.1 h
  cases h
  obtain ⟨tree, htree, hs⟩ := Outcome.bind_eq_ok.1 hs
  cases hs
  have hrest₁ := spelled_of_expectKeyword hts hverb
  obtain ⟨hnames, hrest₂⟩ := isWord_of_readProjection hrest₁ hfields
  obtain ⟨hname, hrest₃⟩ := isWord_of_readSource hrest₂ hentity
  obtain ⟨hreadable, hrest₄⟩ := readable_of_readWhere hrest₃ hcondition
  have hempty : Window.Legible ⟨none, none, none⟩ := ⟨by simp, by decide, by decide⟩
  have hread := legible_of_readWindow hrest₄ hempty hwindow
  exact {
    entity := hname
    fields := by simpa [Naming.identity] using hnames
    condition := hreadable htree
    sorts := by simpa [Naming.identity] using hread.sorts
    skip := hread.skip
    limit := hread.limit }

theorem isWord_of_readRemoved {p : Partly Token (List String) ts}
    (hts : ∀ t ∈ ts, Spelled t.lexeme) (h : readRemoved ts = .ok p) :
    (∀ name ∈ p.value, IsWord name) ∧ p.value.head? ≠ some "from" ∧
      ∀ t ∈ p.rest, Spelled t.lexeme := by
  unfold readRemoved at h
  split at h
  · cases h
    exact ⟨by simp [Partly.nothing], by simp [Partly.nothing], hts⟩
  · next hfrom =>
      obtain ⟨r, hr, rfl⟩ := Outcome.map_eq_ok.1 h
      obtain ⟨hnames, hrest⟩ := isWord_of_readWords hts hr
      obtain ⟨hne, -, hs⟩ := words_of_readWords hr
      refine ⟨hnames, fun hfirst => hfrom (.inr ?_), hrest⟩
      obtain ⟨rest, hspells⟩ := spells_head hne hs
      rw [Option.some.inj ((List.head?_eq_some_head hne).symm.trans hfirst)] at hspells
      obtain ⟨_, hskip⟩ := skipKeyword_of_spells hspells
      rw [hskip]

theorem legible_of_readDelete {w : Written} {s : Command} (hts : ∀ t ∈ ts, Spelled t.lexeme)
    (h : readDelete limits ts = .ok w) (hs : w.resolve .identity = .ok s) : s.Legible := by
  obtain ⟨verb, hverb, h⟩ := Outcome.bind_eq_ok.1 h
  obtain ⟨fields, hfields, h⟩ := Outcome.bind_eq_ok.1 h
  obtain ⟨entity, hentity, h⟩ := Outcome.bind_eq_ok.1 h
  obtain ⟨condition, hcondition, h⟩ := Outcome.bind_eq_ok.1 h
  obtain ⟨-, -, h⟩ := Outcome.bind_eq_ok.1 h
  cases h
  obtain ⟨tree, htree, hs⟩ := Outcome.bind_eq_ok.1 hs
  cases hs
  have hrest₁ := spelled_of_expectKeyword hts hverb
  obtain ⟨hnames, hfirst, hrest₂⟩ := isWord_of_readRemoved hrest₁ hfields
  obtain ⟨hname, hrest₃⟩ := isWord_of_readSource hrest₂ hentity
  exact {
    entity := hname
    fields := by simpa [Naming.identity] using hnames
    first := by simpa [Naming.identity] using hfirst
    condition := (readable_of_readWhere hrest₃ hcondition).1 htree }

theorem verb_of_readStatement {verb : Verb} {w : Written}
    (h : readStatement limits verb ts = .ok w) : w.verb = verb := by
  cases verb with
  | select =>
      iterate 5 obtain ⟨_, _, h⟩ := Outcome.bind_eq_ok.1 h
      cases h
      rfl
  | delete =>
      iterate 5 obtain ⟨_, _, h⟩ := Outcome.bind_eq_ok.1 h
      cases h
      rfl
  | insert | update =>
      iterate 4 obtain ⟨_, _, h⟩ := Outcome.bind_eq_ok.1 h
      cases h
      rfl

theorem verb_resolve {naming : Naming} {w : Written} {s : Command}
    (h : w.resolve naming = .ok s) : s.verb = w.verb := by
  cases w with
  | select q | delete q =>
      obtain ⟨_, _, h⟩ := Outcome.bind_eq_ok.1 h
      cases h
      rfl
  | insert r ttl | update r =>
      cases h
      rfl

theorem legible_of_ofText {text : String} {w : Written} {s : Command}
    (h : ofText limits text = .ok w) (hs : w.resolve .identity = .ok s)
    (hverb : s.verb = .select ∨ s.verb = .delete) : s.Legible := by
  rw [verb_resolve hs] at hverb
  unfold ofText at h
  split at h
  · cases h
  · next verb _ =>
      obtain ⟨ts, hts, h⟩ := Outcome.bind_eq_ok.1 h
      have hspelled := Token.spelled_of_ofChars hts
      rw [verb_of_readStatement h] at hverb
      rcases hverb with rfl | rfl
      · exact legible_of_readSelect hspelled h hs
      · exact legible_of_readDelete hspelled h hs

end Written

theorem Query.legible_of_parse {limits : Limits} {text : String} {q : Query}
    (h : parse limits .identity text = .ok q)
    (hverb : q.command.verb = .select ∨ q.command.verb = .delete) : q.command.Legible := by
  obtain ⟨w, hw, h⟩ := Outcome.bind_eq_ok.1 h
  obtain ⟨s, hs, rfl⟩ := Outcome.map_eq_ok.1 h
  exact Written.legible_of_ofText hw hs hverb

namespace Command

variable {σ : String → Value}

theorem readable_subst {c : Option Condition} (hc : ∀ d ∈ c, d.Readable)
    (hσ : ∀ n ∈ (c.map Condition.params).getD [], (σ n).Each Value.Formed) :
    ∀ d ∈ c.map (Condition.subst σ), d.Readable := by
  intro d hd
  obtain ⟨c, rfl, rfl⟩ := Option.map_eq_some_iff.1 hd
  exact (hc c rfl).subst hσ

theorem Legible.subst {s : Command} (h : s.Legible)
    (hσ : ∀ n ∈ s.params, (σ n).Each Value.Formed) : (s.subst σ).Legible := by
  cases s with
  | select q =>
      have hq : q.Legible := h
      exact { hq with condition := readable_subst hq.condition hσ }
  | delete q =>
      have hq : q.Legible := h
      exact { hq with condition := readable_subst hq.condition hσ }
  | insert | update => exact h

end Command

end RecordQuery
