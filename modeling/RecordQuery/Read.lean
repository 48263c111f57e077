/-!
Reading from the front of a list: what was read, and what is left. A `Read` takes at least one item,
so a reader that calls itself on what is left comes to an end; a `Partly` may take nothing.
-/

namespace RecordQuery

structure Read (σ α : Type) (input : List σ) where
  value : α
  rest : List σ
  shorter : rest.length < input.length

namespace Read

variable {σ α β : Type} {input : List σ}

def map (f : α → β) (r : Read σ α input) : Read σ β input := ⟨f r.value, r.rest, r.shorter⟩

def within {longer : List σ} (h : input.length ≤ longer.length) (r : Read σ α input) :
    Read σ α longer :=
  ⟨r.value, r.rest, Nat.lt_of_lt_of_le r.shorter h⟩

def behind (item : σ) (r : Read σ α input) : Read σ α (item :: input) :=
  ⟨r.value, r.rest, Nat.lt_succ_of_lt r.shorter⟩

def after {left : List σ} (h : left.length < input.length) (r : Read σ α left) :
    Read σ α input :=
  ⟨r.value, r.rest, Nat.lt_trans r.shorter h⟩

def one (value : α) (item : σ) (rest : List σ) : Read σ α (item :: rest) :=
  ⟨value, rest, Nat.lt_succ_self _⟩

section Parts

variable {longer left : List σ}

@[simp] theorem value_map (f : α → β) (r : Read σ α input) : (r.map f).value = f r.value := rfl

@[simp] theorem rest_map (f : α → β) (r : Read σ α input) : (r.map f).rest = r.rest := rfl

@[simp] theorem value_within (h : input.length ≤ longer.length) (r : Read σ α input) :
    (r.within h).value = r.value := rfl

@[simp] theorem rest_within (h : input.length ≤ longer.length) (r : Read σ α input) :
    (r.within h).rest = r.rest := rfl

@[simp] theorem value_behind (item : σ) (r : Read σ α input) :
    (r.behind item).value = r.value := rfl

@[simp] theorem rest_behind (item : σ) (r : Read σ α input) : (r.behind item).rest = r.rest := rfl

@[simp] theorem value_after (h : left.length < input.length) (r : Read σ α left) :
    (r.after h).value = r.value := rfl

@[simp] theorem rest_after (h : left.length < input.length) (r : Read σ α left) :
    (r.after h).rest = r.rest := rfl

@[simp] theorem value_one (value : α) (item : σ) (rest : List σ) :
    (one value item rest).value = value := rfl

@[simp] theorem rest_one (value : α) (item : σ) (rest : List σ) :
    (one value item rest).rest = rest := rfl

end Parts

end Read

structure Partly (σ α : Type) (input : List σ) where
  value : α
  rest : List σ
  noLonger : rest.length ≤ input.length

namespace Partly

variable {σ α : Type} {input : List σ}

def nothing (value : α) (input : List σ) : Partly σ α input := ⟨value, input, Nat.le_refl _⟩

def ofRead (r : Read σ α input) : Partly σ α input := ⟨r.value, r.rest, Nat.le_of_lt r.shorter⟩

def after {left : List σ} (h : left.length < input.length) (p : Partly σ α left) :
    Read σ α input :=
  ⟨p.value, p.rest, Nat.lt_of_le_of_lt p.noLonger h⟩

end Partly

theorem length_dropWhile_lt {σ : Type} {p : σ → Bool} :
    ∀ {l : List σ}, l.takeWhile p ≠ [] → (l.dropWhile p).length < l.length
  | [], h => by simp at h
  | c :: cs, h => by
      have hc : p c = true := by
        cases hp : p c with
        | true => rfl
        | false => simp [hp] at h
      simpa [hc, Nat.lt_succ_iff] using (List.dropWhile_sublist (l := cs) p).length_le

end RecordQuery
