import RecordQuery.Proofs.Grammar.Record

/-!
Readings whose outcome is settled by the lexemes they take: where these stand, and what stands
behind them, shows at most in the place an error tells. Items between commas are settled when each
item is, and this holds of the readers of lists, of documents and of assignments alike.
-/

namespace RecordQuery

/-- The error without the place it tells. -/
def QueryError.unplaced : QueryError → QueryError
  | .malformed fault _ => .malformed fault ""
  | e => e

def Outcome.unplaced {α : Type} (o : Outcome α) : Outcome α := o.mapError QueryError.unplaced

theorem Outcome.unplaced_bind_congr {α β : Type} {o o' : Outcome α} (h : o.unplaced = o'.unplaced)
    (f : α → Outcome β) : Outcome.unplaced (o >>= f) = Outcome.unplaced (o' >>= f) := by
  cases o with
  | ok v =>
      cases o' with
      | ok v' =>
          cases h
          rfl
      | error e' => cases h
  | error e =>
      cases o' with
      | ok v' => cases h
      | error e' => exact congrArg Except.error (Except.error.inj h)

theorem Outcome.eq_ok_of_unplaced {α : Type} {o : Outcome α} {v : α}
    (h : o.unplaced = Outcome.unplaced (.ok v)) : o = .ok v := by
  cases o with
  | ok w =>
      cases h
      rfl
  | error e => cases h

theorem Outcome.exists_error_of_unplaced {α : Type} {o : Outcome α} {e : QueryError}
    (h : o.unplaced = Outcome.unplaced (.error e)) :
    ∃ e', o = .error e' ∧ e'.unplaced = e.unplaced := by
  cases o with
  | ok v => cases h
  | error e' => exact ⟨e', rfl, Except.error.inj h⟩

theorem QueryError.eq_limitExceeded_of_unplaced {e : QueryError} {limit : Limited}
    {maximum found : Nat} (h : e.unplaced = .limitExceeded limit maximum found) :
    e = .limitExceeded limit maximum found := by
  cases e <;> first | exact h | cases h

namespace Written

open Token (Spells)

variable {α β γ : Type} {limits : Limits} {depth : Nat} {ts ts' mid rest : List Token}

/-- The reading has the outcome, and takes all that stands before the rest unless it fails. -/
def Settles (r : Reading α ts) (o : Outcome α) (rest : List Token) : Prop :=
  match o with
  | .ok v => Gives r v rest
  | .error e => ∃ e', r = .error e' ∧ e'.unplaced = e.unplaced

theorem settles_error {e : QueryError} : Settles (.error e : Reading α ts) (.error e) rest :=
  ⟨e, rfl, rfl⟩

theorem settles_at (fault : Fault) (at' : List Token) :
    Settles (.error (fault.at at') : Reading α ts) (.error (.malformed fault "")) rest :=
  ⟨_, rfl, rfl⟩

theorem Settles.bind {r : Reading α ts} {o : Outcome α} {f : Read Token α ts → Reading β ts'}
    {g : α → Outcome β} (h : Settles r o mid)
    (hf : ∀ v hlt, o = .ok v → Settles (f ⟨v, mid, hlt⟩) (g v) rest) :
    Settles (r >>= f) (o >>= g) rest := by
  cases o with
  | ok v =>
      obtain ⟨hlt, rfl⟩ := h
      exact hf v hlt rfl
  | error e =>
      obtain ⟨e', rfl, he⟩ := h
      exact ⟨e', rfl, he⟩

theorem Settles.lift {r : Reading α ts} {o : Outcome α} {f : Read Token α ts → Reading α ts'}
    (h : Settles r o mid) (hf : ∀ v hlt, Gives (f ⟨v, mid, hlt⟩) v rest) :
    Settles (r >>= f) o rest := by
  cases o with
  | ok v =>
      obtain ⟨hlt, rfl⟩ := h
      exact hf v hlt
  | error e =>
      obtain ⟨e', rfl, he⟩ := h
      exact ⟨e', rfl, he⟩

theorem Settles.unplaced_bind {r : Reading α ts} {o : Outcome α} {f : Read Token α ts → Outcome β}
    {g : α → Outcome β} (h : Settles r o mid) (hf : ∀ v hlt, f ⟨v, mid, hlt⟩ = g v) :
    Outcome.unplaced (r >>= f) = Outcome.unplaced (o >>= g) := by
  cases o with
  | ok v =>
      obtain ⟨hlt, rfl⟩ := h
      exact congrArg Outcome.unplaced (hf v hlt)
  | error e =>
      obtain ⟨e', rfl, he⟩ := h
      exact congrArg Except.error he

theorem Settles.map {r : Reading α ts} {o : Outcome α} {f : Read Token α ts → Read Token β ts'}
    {g : α → β} (h : Settles r o rest)
    (hf : ∀ v hlt, ∃ hlt', f ⟨v, rest, hlt⟩ = ⟨g v, rest, hlt'⟩) :
    Settles (r.map f) (o.map g) rest := by
  cases o with
  | ok v =>
      obtain ⟨hlt, rfl⟩ := h
      obtain ⟨hlt', heq⟩ := hf v hlt
      exact ⟨hlt', congrArg Except.ok heq⟩
  | error e =>
      obtain ⟨e', rfl, he⟩ := h
      exact ⟨e', rfl, he⟩

theorem settles_bind {o : Outcome α} {f : α → Reading β ts} {g : α → Outcome β}
    (hf : ∀ v, o = .ok v → Settles (f v) (g v) rest) : Settles (o >>= f) (o >>= g) rest := by
  cases o with
  | ok v => exact hf v rfl
  | error e => exact settles_error

section Separated

def separated (read : (ts : List Token) → Reading α ts) (close : Mark)
    (more : (ts : List Token) → Reading (List α) ts) (ts : List Token) : Reading (List α) ts := do
  let ⟨a, rest, h⟩ ← read ts
  match comma? rest with
  | some ⟨_, rest', h'⟩ =>
      let as ← more rest'
      .ok (((as.map (a :: ·)).after h').after h)
  | none =>
      let closed ← expectMark close rest
      .ok ((closed.map fun _ => [a]).after h)

def readField (limits : Limits) (depth : Nat) (readName : (ts : List Token) → Reading String ts)
    (mark : Mark) (ts : List Token) : Reading Column ts := do
  let ⟨name, rest, h₁⟩ ← readName ts
  let ⟨_, rest, h₂⟩ ← expectMark mark rest
  let v ← readValue limits depth rest
  .ok (((v.map (⟨name, ·⟩)).after h₂).after h₁)

theorem readItems_eq (close : Mark) (ts : List Token) :
    readItems limits depth close ts =
      separated (readValue limits depth) close (readItems limits depth close) ts := by
  rw [readItems]
  rfl

theorem separated_readField (readName : (ts : List Token) → Reading String ts) (mark close : Mark)
    (more : (ts : List Token) → Reading (List Column) ts) (ts : List Token) :
    separated (readField limits depth readName mark) close more ts = (do
      let ⟨name, rest, h₁⟩ ← readName ts
      let ⟨_, rest, h₂⟩ ← expectMark mark rest
      let ⟨v, rest, h₃⟩ ← readValue limits depth rest
      match comma? rest with
      | some ⟨_, rest', h₄⟩ =>
          let columns ← more rest'
          .ok (((((columns.map (⟨name, v⟩ :: ·)).after h₄).after h₃).after h₂).after h₁)
      | none =>
          let closed ← expectMark close rest
          .ok ((((closed.map fun _ => [⟨name, v⟩]).after h₃).after h₂).after h₁)) := by
  rw [separated, readField]
  cases readName ts with
  | error e => rfl
  | ok name =>
      simp only [Outcome.ok_bind]
      cases expectMark mark name.rest with
      | error e => rfl
      | ok mark =>
          simp only [Outcome.ok_bind]
          cases readValue limits depth mark.rest with
          | error e => rfl
          | ok v =>
              simp only [Outcome.ok_bind, Read.rest_after, Read.rest_map]
              cases comma? v.rest <;> rfl

theorem readEntries_eq (ts : List Token) :
    readEntries limits depth ts =
      separated (readField limits depth readKey .colon) .closeBrace (readEntries limits depth)
        ts := by
  rw [separated_readField]
  exact readEntries.eq_1 limits depth ts

theorem readAssignments_eq (ts : List Token) :
    readAssignments limits ts =
      separated (readField limits 0 (expectWord "field name") .equal) .closeParen
        (readAssignments limits) ts := by
  rw [separated_readField]
  exact readAssignments.eq_1 limits ts

theorem settles_field {readName : (ts : List Token) → Reading String ts} {mark : Mark}
    {l : Lexeme} {name : String} {ls : List Lexeme} {o : Outcome Value}
    (hname : ∀ ts rest, Spells [l] ts rest → Gives (readName ts) name rest)
    (hv : ∀ ts rest, Spells ls ts rest → Settles (readValue limits depth ts) o rest)
    (hs : Spells (l :: .mark mark :: ls) ts rest) :
    Settles (readField limits depth readName mark ts) (o.map (⟨name, ·⟩)) rest := by
  obtain ⟨mid₁, hl, hs⟩ := hs.uncons
  obtain ⟨mid₂, hmark, hs⟩ := hs.uncons
  obtain ⟨_, hname⟩ := hname _ _ hl
  obtain ⟨_, hmark⟩ := gives_expectMark.2 hmark
  have hbind : o.map (fun v => (⟨name, v⟩ : Column)) = o >>= fun v => .ok ⟨name, v⟩ := by
    cases o <;> rfl
  rw [readField, hbind]
  simp only [hname, hmark, Outcome.ok_bind]
  exact (hv _ _ hs).bind fun v hlt _ => ⟨_, rfl⟩

theorem settles_separated {read : (ts : List Token) → Reading α ts} {close : Mark}
    {more : (ts : List Token) → Reading (List α) ts} (hclose : close ≠ .comma)
    (hmore : ∀ ts, more ts = separated read close more ts) {lexemes : β → List Lexeme}
    {o : β → Outcome α} {xs : List β} (hne : xs ≠ [])
    (h : ∀ x ∈ xs, ∀ ts rest, Spells (lexemes x) ts rest → Settles (read ts) (o x) rest)
    (hs : Spells ([.mark .comma].intercalate (xs.map lexemes) ++ [.mark close]) ts rest) :
    Settles (more ts) (xs.mapM o) rest := by
  induction xs generalizing ts with
  | nil => exact absurd rfl hne
  | cons x xs ih =>
      rw [List.forall_mem_cons] at h
      rw [hmore, separated, List.mapM_cons]
      cases xs with
      | nil =>
          rw [List.map_singleton, List.intercalate_singleton] at hs
          obtain ⟨mid, hx, hend⟩ := hs.split
          obtain ⟨_, hread⟩ := gives_expectMark.2 hend
          refine (h.1 _ _ hx).bind fun a hlt _ => ?_
          simp only [comma?_of_mark hclose hend, hread, Outcome.ok_bind]
          exact ⟨_, rfl⟩
      | cons y ys =>
          rw [List.map_cons, List.map_cons, List.intercalate_cons_cons, List.append_assoc,
            List.append_assoc] at hs
          obtain ⟨mid, hx, hs⟩ := hs.split
          obtain ⟨mid', hcomma, hs⟩ := hs.uncons
          obtain ⟨_, hcomma⟩ := comma?_of_spells hcomma
          have hys := ih (List.cons_ne_nil y ys) h.2 hs
          refine (h.1 _ _ hx).bind fun a hlt _ => ?_
          simp only [hcomma]
          exact hys.bind fun as hlt' _ => ⟨_, rfl⟩

end Separated

end Written

end RecordQuery
