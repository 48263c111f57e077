/-!
Named things: the columns of a record, the fields of an object, the keys of a document. A list of
them is read by name, the first entry of a name counting.
-/

namespace RecordQuery

structure Named (α : Type) where
  name : String
  value : α
  deriving DecidableEq, Repr

namespace Named

variable {α : Type}

def find? (name : String) : List (Named α) → Option α
  | [] => none
  | c :: cs => if c.name = name then some c.value else find? name cs

theorem find?_cons_self (name : String) (v : α) (cs : List (Named α)) :
    find? name (⟨name, v⟩ :: cs) = some v := by
  simp [find?]

theorem find?_cons_of_ne {name : String} {c : Named α} {cs : List (Named α)}
    (h : c.name ≠ name) : find? name (c :: cs) = find? name cs := by
  simp [find?, h]

theorem mem_of_find?_eq_some {name : String} {v : α} :
    ∀ {cs : List (Named α)}, find? name cs = some v → ⟨name, v⟩ ∈ cs
  | [], h => by simp [find?] at h
  | c :: cs, h => by
      simp only [find?] at h
      split at h
      · next hn =>
          cases h
          cases c
          simp at hn
          simp [hn]
      · exact List.mem_cons_of_mem _ (mem_of_find?_eq_some h)

/-- Puts a value under a name: in the place the name already has, else at the end. -/
def put (name : String) (v : α) : List (Named α) → List (Named α)
  | [] => [⟨name, v⟩]
  | c :: cs => if c.name = name then ⟨name, v⟩ :: cs else c :: put name v cs

theorem find?_put_self (name : String) (v : α) (cs : List (Named α)) :
    find? name (put name v cs) = some v := by
  induction cs with
  | nil => simp [put, find?]
  | cons c cs ih =>
      simp only [put]
      split
      · simp [find?]
      · next hn => simp [find?, hn, ih]

theorem find?_put_of_ne {name other : String} (v : α) (h : name ≠ other)
    (cs : List (Named α)) : find? other (put name v cs) = find? other cs := by
  induction cs with
  | nil => simp [put, find?, h]
  | cons c cs ih =>
      simp only [put]
      split
      · next hn =>
          subst hn
          simp [find?, h]
      · simp only [find?, ih]

end Named

end RecordQuery
