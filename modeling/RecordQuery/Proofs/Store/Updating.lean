import RecordQuery.Proofs.Store.Step

namespace RecordQuery

namespace Named

variable {α : Type} {name : String} {v : α} {cs : List (Named α)}

theorem put_of_find? (h : find? name cs = some v) : put name v cs = cs := by
  induction cs with
  | nil => cases h
  | cons c cs ih =>
      rw [put]
      by_cases hc : c.name = name
      · rw [find?, if_pos hc, Option.some.injEq] at h
        subst hc
        subst h
        rw [if_pos rfl]
      · rw [find?_cons_of_ne hc] at h
        rw [if_neg hc, ih h]

end Named

namespace Store

variable {s : Store} {r : Record} {key : Column} {columns : List Column} {es : List Entry}

theorem withEntries_entries? {entity : String} (h : s.entries? entity = some es) :
    s.withEntries entity es = s := by
  rw [withEntries, Named.put_of_find? h]

theorem entries?_withEntries_self (s : Store) (entity : String) (es : List Entry) :
    (s.withEntries entity es).entries? entity = some es :=
  Named.find?_put_self entity es s.entities

theorem entries?_withEntries_of_ne {entity other : String} (s : Store) (es : List Entry)
    (h : entity ≠ other) : (s.withEntries entity es).entries? other = s.entries? other :=
  Named.find?_put_of_ne es h s.entities

def Keyless (key : Column) (es : List Entry) : Prop := ∀ x ∈ es, hasKey key x.record = false

/-- The entries before and after an update: the record is new at the end, or takes the place of the
first one with the key. -/
inductive Replaced (key : Column) (r : Record) : List Entry → List Entry → Prop
  | added {es : List Entry} (hnone : Keyless key es) : Replaced key r es (es ++ [⟨r, none⟩])
  | taken {before after : List Entry} {x : Entry} (hbefore : Keyless key before)
      (hx : hasKey key x.record = true) :
      Replaced key r (before ++ x :: after) (before ++ ⟨r, x.ttl⟩ :: after)

namespace Replaced

variable {es' : List Entry}

theorem cons {x : Entry} (hx : hasKey key x.record = false) (h : Replaced key r es es') :
    Replaced key r (x :: es) (x :: es') := by
  cases h with
  | added hnone => exact .added (List.forall_mem_cons.2 ⟨hx, hnone⟩)
  | taken hbefore hfound =>
      have hall : Keyless key (x :: _) := List.forall_mem_cons.2 ⟨hx, hbefore⟩
      exact .taken hall hfound

theorem length_eq_iff (h : Replaced key r es es') :
    es'.length = es.length + 1 ↔ Keyless key es := by
  cases h with
  | added hnone => simp [hnone]
  | @taken before after x hbefore hx =>
      have hfound : ¬ Keyless key (before ++ x :: after) := by
        intro hnone
        rw [hnone x (by simp)] at hx
        cases hx
      simp [hfound]

theorem find?_eq (h : Replaced key r es es') (hr : hasKey key r = true) :
    (es'.map Entry.record).find? (hasKey key) = some r := by
  have hfirst : ∀ {before after : List Entry} {ttl : Option Ttl}, Keyless key before →
      ((before ++ ⟨r, ttl⟩ :: after).map Entry.record).find? (hasKey key) = some r := by
    intro before after ttl hbefore
    have hnone : (before.map Entry.record).find? (hasKey key) = none := by
      rw [List.find?_eq_none]
      intro q hq
      obtain ⟨x, hx, rfl⟩ := List.mem_map.1 hq
      rw [hbefore x hx]
      decide
    rw [List.map_append, List.find?_append, hnone, List.map_cons, List.find?_cons_of_pos hr]
    rfl
  cases h with
  | added hnone => exact hfirst hnone
  | taken hbefore => exact hfirst hbefore

end Replaced

theorem replaced_replace (key : Column) (r : Record) (es : List Entry) :
    Replaced key r es (replace key r es) := by
  induction es with
  | nil => exact .added (List.forall_mem_nil _)
  | cons x es ih =>
      rw [replace]
      cases hx : hasKey key x.record with
      | true =>
          have hnone : Keyless key [] := List.forall_mem_nil _
          exact .taken hnone hx
      | false => exact ih.cons hx

theorem replace_replace (hr : hasKey key r = true) (es : List Entry) :
    replace key r (replace key r es) = replace key r es := by
  induction es with
  | nil => simp [replace, hr]
  | cons x es ih =>
      rw [replace]
      split
      · rw [replace, if_pos hr]
      · next hx => rw [replace, if_neg hx, ih]

theorem hasKey_self (hkey : r.columns = key :: columns)
    (hself : key.value.equal key.value = true) : hasKey key r = true := by
  have hfirst : r.find? key.name = some key.value := by
    rw [Record.find?, hkey]
    exact Named.find?_cons_self key.name key.value columns
  rw [hasKey, hfirst]
  exact hself

theorem backend_update (hclosed : r.params = []) (hkey : r.columns = key :: columns) (s : Store) :
    backend.update r s =
      (.ok r, s.withEntries r.entity (replace key r (s.entries r.entity))) := by
  change s.update r = _
  simp only [update, rejectParams, hclosed, hkey]

/-- An update with a record that has its own key returns the record. Afterwards the record is the
first of its entity with the key: it took the place and the time to live of the first one that had
the key, or was added at the end where none had, and then only there is one record more. All other
entries stay as they are, and updating once more changes nothing. -/
theorem update_puts_record (s : Store) (hclosed : r.params = []) (hkey : r.columns = key :: columns)
    (hself : key.value.equal key.value = true) :
    ∃ t, backend.update r s = (.ok r, t) ∧
      (t.records r.entity).find? (hasKey key) = some r ∧
      Replaced key r (s.entries r.entity) (t.entries r.entity) ∧
      (∀ other, other ≠ r.entity → t.entries? other = s.entries? other) ∧
      (t.size r.entity = s.size r.entity + 1 ↔
        ∀ q ∈ s.records r.entity, hasKey key q = false) ∧
      backend.update r t = (.ok r, t) := by
  have hr := hasKey_self hkey hself
  have hreplaced := replaced_replace key r (s.entries r.entity)
  refine ⟨_, backend_update hclosed hkey s, ?_, ?_, ?_, ?_, ?_⟩
  · rw [records, entries_withEntries_self]
    exact hreplaced.find?_eq hr
  · rw [entries_withEntries_self]
    exact hreplaced
  · intro other hother
    exact entries?_withEntries_of_ne s _ hother.symm
  · rw [size, size, entries_withEntries_self, hreplaced.length_eq_iff, records,
      List.forall_mem_map]
    rfl
  · rw [backend_update hclosed hkey, entries_withEntries_self, replace_replace hr,
      withEntries_entries? (entries?_withEntries_self s _ _)]

def numbered : Store :=
  ⟨[⟨"a", [⟨⟨"a", [⟨"n", .int 2⟩, ⟨"n", .int 1⟩]⟩, none⟩,
    ⟨⟨"a", [⟨"m", .null⟩, ⟨"n", .float ⟨false, 0x3FF0000000000000, by decide⟩⟩]⟩, some ⟨5⟩⟩,
    ⟨⟨"a", [⟨"n", .int 1⟩]⟩, none⟩]⟩, ⟨"b", []⟩]⟩

def renumbering : Record := ⟨"a", [⟨"n", .int 1⟩, ⟨"n", .null⟩]⟩

theorem numbered_updated :
    renumbering.params = [] ∧ (Value.int 1).equal (.int 1) = true ∧
    ∃ t, backend.update renumbering numbered = (.ok renumbering, t) ∧
      t.records "a" =
        [⟨"a", [⟨"n", .int 2⟩, ⟨"n", .int 1⟩]⟩, renumbering, ⟨"a", [⟨"n", .int 1⟩]⟩] ∧
      t.ttls "a" = [none, some ⟨5⟩, none] ∧
      (t.records "a").find? (hasKey ⟨"n", .int 1⟩) = some renumbering ∧
      t.entries? "b" = some [] ∧ t.size "a" ≠ numbered.size "a" + 1 ∧
      backend.update renumbering t = (.ok renumbering, t) := by
  have hself : (Value.int 1).equal (.int 1) = true := by decide
  have hkey : renumbering.columns = ⟨"n", .int 1⟩ :: renumbering.columns.tail := rfl
  obtain ⟨t, ht, hfirst, -, hother, hsize, hagain⟩ := update_puts_record numbered rfl hkey hself
  have hstore : (backend.update renumbering numbered).2 = t := by rw [ht]
  refine ⟨rfl, hself, t, ht, ?_, ?_, hfirst, hother "b" (by decide), mt hsize.1 ?_, hagain⟩
  · rw [← hstore]
    decide +kernel
  · rw [← hstore]
    decide +kernel
  · decide +kernel

end Store

end RecordQuery
