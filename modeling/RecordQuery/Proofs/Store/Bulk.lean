import RecordQuery.Backend

namespace RecordQuery.Backend

variable {σ : Type} {write : Record → σ → Outcome Record × σ} {done rs stored : List Record}
  {r : Record} {e : QueryError} {s s' t : σ}

/-- Single writes one after another, all of which succeed, with the records they return and the
states they begin and end in. -/
inductive Wrote (write : Record → σ → Outcome Record × σ) : List Record → List Record → σ → σ → Prop
  | nil (s : σ) : Wrote write [] [] s s
  | cons {r kept : Record} {rs stored : List Record} {s s' t : σ} (hfirst : write r s = (.ok kept, s'))
      (hrest : Wrote write rs stored s' t) : Wrote write (r :: rs) (kept :: stored) s t

theorem writeAll_cons_of_ok {kept : Record} (h : write r s = (.ok kept, s')) (rs : List Record) :
    writeAll write (r :: rs) s = mapOutcome (kept :: ·) (writeAll write rs s') := by
  rw [writeAll, h]

theorem writeAll_cons_of_error (h : write r s = (.error e, s')) (rs : List Record) :
    writeAll write (r :: rs) s = (.error e, s') := by
  rw [writeAll, h]

namespace Wrote

theorem writeAll_eq (h : Wrote write rs stored s t) : writeAll write rs s = (.ok stored, t) := by
  induction h with
  | nil s => rfl
  | cons hfirst hrest ih =>
      rw [writeAll_cons_of_ok hfirst, ih]
      rfl

theorem writeAll_append_of_error (h : Wrote write done stored s t)
    (hfail : write r t = (.error e, s')) (rest : List Record) :
    writeAll write (done ++ r :: rest) s = (.error e, s') := by
  induction h with
  | nil s => exact writeAll_cons_of_error hfail rest
  | cons hfirst hrest ih =>
      rw [List.cons_append, writeAll_cons_of_ok hfirst, ih hfail]
      rfl

end Wrote

theorem writeAll_cases (write : Record → σ → Outcome Record × σ) (rs : List Record) (s : σ) :
    (∃ stored t, Wrote write rs stored s t ∧ writeAll write rs s = (.ok stored, t)) ∨
    ∃ done r rest stored t e s', rs = done ++ r :: rest ∧ Wrote write done stored s t ∧
      write r t = (.error e, s') ∧ writeAll write rs s = (.error e, s') := by
  induction rs generalizing s with
  | nil => exact .inl ⟨[], s, .nil s, rfl⟩
  | cons r rs ih =>
      cases hone : write r s with
      | mk outcome s' =>
          cases outcome with
          | error e =>
              exact .inr ⟨[], r, rs, [], s, e, s', rfl, .nil s, hone, writeAll_cons_of_error hone rs⟩
          | ok kept =>
              -- the rest is written to the state that this write left
              rcases ih s' with ⟨stored, t, hwrote, -⟩ |
                ⟨done, r', rest, stored, t, e, s'', rfl, hwrote, hfail, -⟩
              · have hall := Wrote.cons hone hwrote
                exact .inl ⟨_, t, hall, hall.writeAll_eq⟩
              · have hdone := Wrote.cons hone hwrote
                exact .inr ⟨r :: done, r', rest, _, t, e, s'', rfl, hdone, hfail,
                  hdone.writeAll_append_of_error hfail rest⟩

theorem writeAll_eq_error : writeAll write rs s = (.error e, s') ↔
    ∃ done r rest stored t, rs = done ++ r :: rest ∧ Wrote write done stored s t ∧
      write r t = (.error e, s') := by
  constructor
  · intro h
    rcases writeAll_cases write rs s with ⟨stored, t, -, hok⟩ |
      ⟨done, r, rest, stored, t, e', s'', hrs, hwrote, hfail, herror⟩
    · rw [hok] at h
      cases h
    · rw [herror] at h
      cases h
      exact ⟨done, r, rest, stored, t, hrs, hwrote, hfail⟩
  · rintro ⟨done, r, rest, stored, t, rfl, hwrote, hfail⟩
    exact hwrote.writeAll_append_of_error hfail rest

theorem writeAll_keeps {P : σ → Prop} (hwrite : ∀ r s, P s → P (write r s).2) (rs : List Record)
    (hs : P s) : P (writeAll write rs s).2 := by
  induction rs generalizing s with
  | nil => exact hs
  | cons r rs ih =>
      have hone := hwrite r s hs
      cases h : write r s with
      | mk outcome s' =>
          rw [h] at hone
          cases outcome with
          | error e =>
              rw [writeAll_cons_of_error h]
              exact hone
          | ok kept =>
              rw [writeAll_cons_of_ok h]
              exact ih hone

end RecordQuery.Backend
