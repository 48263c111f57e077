import RecordQuery.Proofs.Grammar.Spelling

namespace RecordQuery.Outcome

variable {ε α β γ : Type} {f : α → Except ε β} {as : List α} {bs : List β} {e : ε}

theorem mapM_cons_eq_ok {a : α} : (a :: as).mapM f = .ok bs ↔
    ∃ b bs', f a = .ok b ∧ as.mapM f = .ok bs' ∧ bs = b :: bs' := by
  rw [List.mapM_cons]
  constructor
  · intro h
    obtain ⟨b, hb, h⟩ := bind_eq_ok.1 h
    obtain ⟨bs', hbs, h⟩ := bind_eq_ok.1 h
    cases h
    exact ⟨b, bs', hb, hbs, rfl⟩
  · rintro ⟨b, bs', hb, hbs, rfl⟩
    rw [hb, hbs]
    rfl

theorem mapM_eq_ok {g : α → β} (h : ∀ a ∈ as, f a = .ok (g a)) : as.mapM f = .ok (as.map g) := by
  induction as with
  | nil => rfl
  | cons a as ih =>
      rw [List.forall_mem_cons] at h
      exact mapM_cons_eq_ok.2 ⟨g a, _, h.1, ih h.2, rfl⟩

theorem exists_ok_of_mapM (h : as.mapM f = .ok bs) : ∀ a ∈ as, ∃ b, f a = .ok b := by
  induction as generalizing bs with
  | nil => exact List.forall_mem_nil _
  | cons a as ih =>
      obtain ⟨b, bs', hb, hbs, -⟩ := mapM_cons_eq_ok.1 h
      exact List.forall_mem_cons.2 ⟨⟨b, hb⟩, ih hbs⟩

theorem mem_of_mapM (h : as.mapM f = .ok bs) : ∀ b ∈ bs, ∃ a ∈ as, f a = .ok b := by
  induction as generalizing bs with
  | nil =>
      cases h
      exact List.forall_mem_nil _
  | cons a as ih =>
      obtain ⟨b, bs', hb, hbs, rfl⟩ := mapM_cons_eq_ok.1 h
      refine List.forall_mem_cons.2 ⟨⟨a, List.mem_cons_self, hb⟩, fun c hc => ?_⟩
      obtain ⟨a', ha, hc⟩ := ih hbs c hc
      exact ⟨a', List.mem_cons_of_mem a ha, hc⟩

theorem map_eq_of_mapM {g : β → γ} {k : α → γ} (hf : ∀ a ∈ as, ∀ b, f a = .ok b → g b = k a)
    (h : as.mapM f = .ok bs) : bs.map g = as.map k := by
  induction as generalizing bs with
  | nil =>
      cases h
      rfl
  | cons a as ih =>
      rw [List.forall_mem_cons] at hf
      obtain ⟨b, bs', hb, hbs, rfl⟩ := mapM_cons_eq_ok.1 h
      rw [List.map_cons, List.map_cons, hf.1 b hb, ih hf.2 hbs]

theorem exists_mapM_inverse {g : β → Except ε α} (h : ∀ a ∈ as, ∃ b, f a = .ok b ∧ g b = .ok a) :
    ∃ bs, as.mapM f = .ok bs ∧ bs.mapM g = .ok as := by
  induction as with
  | nil => exact ⟨[], rfl, rfl⟩
  | cons a as ih =>
      rw [List.forall_mem_cons] at h
      obtain ⟨⟨b, hb, ha⟩, hmore⟩ := h
      obtain ⟨bs, hbs, has⟩ := ih hmore
      exact ⟨b :: bs, mapM_cons_eq_ok.2 ⟨b, bs, hb, hbs, rfl⟩,
        mapM_cons_eq_ok.2 ⟨a, as, ha, has, rfl⟩⟩

/-- Where a list is gone through up to the first that fails, it fails at one before which all
pass. -/
theorem fails_iff_first (fails : List α → Prop) {passes failing : α → Prop} (hnil : ¬fails [])
    (hcons : ∀ a as, fails (a :: as) ↔ failing a ∨ passes a ∧ fails as) :
    fails as ↔ ∃ before a after, as = before ++ a :: after ∧ (∀ b ∈ before, passes b) ∧
      failing a := by
  induction as with
  | nil => simp [hnil]
  | cons a as ih =>
      rw [hcons, ih]
      constructor
      · rintro (ha | ⟨ha, before, b, after, rfl, hbefore, hb⟩)
        · exact ⟨[], a, as, rfl, List.forall_mem_nil _, ha⟩
        · exact ⟨a :: before, b, after, rfl, List.forall_mem_cons.2 ⟨ha, hbefore⟩, hb⟩
      · rintro ⟨before, b, after, has, hbefore, hb⟩
        cases before with
        | nil =>
            cases has
            exact .inl hb
        | cons d ds =>
            cases has
            rw [List.forall_mem_cons] at hbefore
            exact .inr ⟨hbefore.1, ds, b, after, rfl, hbefore.2, hb⟩

theorem exists_ok_congr {x : Except ε α} {y : Except ε β}
    (h : ∀ e, x = .error e ↔ y = .error e) : (∃ a, x = .ok a) ↔ ∃ b, y = .ok b := by
  cases x with
  | error e => simp [(h e).1 rfl]
  | ok a =>
      cases y with
      | error e => cases (h e).2 rfl
      | ok b => simp

theorem mapM_cons_eq_error {a : α} : (a :: as).mapM f = .error e ↔
    f a = .error e ∨ (∃ b, f a = .ok b) ∧ as.mapM f = .error e := by
  rw [List.mapM_cons]
  cases f a with
  | error e' => simp [bind, Except.bind]
  | ok b =>
      cases as.mapM f with
      | error e' => simp [bind, Except.bind]
      | ok bs => simp [bind, Except.bind, pure, Except.pure]

theorem mapM_append_eq_error {as' : List α} : (as ++ as').mapM f = .error e ↔
    as.mapM f = .error e ∨ (∃ bs, as.mapM f = .ok bs) ∧ as'.mapM f = .error e := by
  rw [List.mapM_append]
  cases as.mapM f with
  | error e' => simp [bind, Except.bind]
  | ok bs =>
      cases as'.mapM f with
      | error e' => simp [bind, Except.bind]
      | ok bs' => simp [bind, Except.bind, pure, Except.pure]

theorem mapM_eq_error : as.mapM f = .error e ↔ ∃ before a after, as = before ++ a :: after ∧
    (∀ b ∈ before, ∃ x, f b = .ok x) ∧ f a = .error e := by
  apply fails_iff_first fun as => as.mapM f = .error e
  · intro h
    cases h
  · intro a as
    exact mapM_cons_eq_error

end RecordQuery.Outcome
