import Mathlib
import RecordQuery.Proofs.Store.Deleting

namespace RecordQuery

theorem Named.find?_filter {α : Type} (p : String → Bool) (name : String) (cs : List (Named α)) :
    find? name (cs.filter fun c => p c.name) = if p name then find? name cs else none := by
  induction cs with
  | nil => simp [find?]
  | cons c cs ih =>
      rw [List.filter_cons]
      by_cases hname : c.name = name
      · subst hname
        cases hp : p c.name with
        | true => simp [find?]
        | false => simpa [hp] using ih
      · rw [find?_cons_of_ne hname, ← ih]
        cases p c.name with
        | true => exact find?_cons_of_ne hname
        | false => rfl

namespace Record

variable {fields : List String} {field : String} {r : Record}

def root (path : String) : String := String.ofList (path.toList.takeWhile (· ≠ '.'))

theorem head?_splitOn (cs : List Char) :
    (cs.splitOn '.').head? = some (cs.takeWhile (· ≠ '.')) := by
  induction cs with
  | nil => rfl
  | cons c cs ih =>
      rw [List.splitOn_cons_eq_if_modifyHead, List.takeWhile_cons]
      by_cases hc : c = '.'
      · simp [hc]
      · simp [hc, List.head?_modifyHead, ih]

theorem root_of_not_mem {path : String} (h : '.' ∉ path.toList) : root path = path := by
  have hhead := head?_splitOn path.toList
  rw [List.splitOn_eq_singleton h, List.head?_cons, Option.some.injEq] at hhead
  rw [root, ← hhead, String.ofList_toList]

theorem exists_segments (path : String) : ∃ names, segments path = root path :: names := by
  have hhead : (segments path).head? = some (root path) := by
    rw [segments, List.head?_map, head?_splitOn]
    rfl
  obtain ⟨names, hnames⟩ := List.head?_eq_some_iff.1 hhead
  exact ⟨names, hnames⟩

/-- What a field leads to in a record without the columns of some names. -/
def remains (fields : List String) (r : Record) (field : String) : Option Value :=
  if root field ∈ fields then none else descend (.document r.columns) (segments field)

theorem lookup_without (hfield : field ∈ fields) (r : Record) :
    (Store.without fields r).lookup field = r.remains fields field := by
  have hfind : ∀ name, (Store.without fields r).find? name =
      if name ∈ fields then none else r.find? name := by
    intro name
    rw [find?, Store.without, Named.find?_filter fun name => !fields.contains name]
    by_cases hname : name ∈ fields <;> simp [hname, find?]
  obtain ⟨names, hnames⟩ := exists_segments field
  have hroot := hfind (root field)
  rw [find?, find?] at hroot
  rw [lookup, hfind, if_pos hfield, remains, hnames]
  by_cases hname : root field ∈ fields
  · rw [if_pos hname] at hroot ⊢
    simp only [descend, hroot]
  · rw [if_neg hname] at hroot ⊢
    simp only [descend, hroot]

end Record

namespace Store

open Condition (Told met holdsIfAny)
open Record (root remains)

variable {s t : Store} {d : Deletion}

theorem records_of_delete (hfields : d.fields ≠ []) (h : s.delete d = (.ok (), t)) :
    t.records d.entity = (s.records d.entity).map fun r =>
      if met d.condition r then without d.fields r else r := by
  obtain ⟨t', ht', hentries⟩ := exists_delete (told_of_delete h)
  rw [h, Prod.mk.injEq] at ht'
  rw [records, ht'.2, hentries, erase_of_ne_nil hfields, records, List.map_map, List.map_map]
  refine List.map_congr_left fun x _ => ?_
  rw [Function.comp, Function.comp]
  cases met d.condition x.record <;> rfl

/-- After columns are deleted, a field of the deletion leads nowhere in a record that was met when
its first part was deleted too, as it is when it has no points; else it leads to what its parts led
to before, where that is anything, and a selection of the fields returns it. -/
theorem deletion_leaves_nested (hfields : d.fields ≠ []) (h : s.delete d = (.ok (), t)) {i : Nat}
    {r : Record} (hr : (s.records d.entity)[i]? = some r)
    (hmet : holdsIfAny d.condition r = .ok true) :
    ∃ r', (t.records d.entity)[i]? = some r' ∧
      (∀ field ∈ d.fields, r'.lookup field = r.remains d.fields field) ∧
      (∀ field ∈ d.fields, r'.lookup field = none ↔
        root field ∈ d.fields ∨
          Record.descend (.document r.columns) (Record.segments field) = none) ∧
      (∀ field ∈ d.fields, '.' ∉ field.toList → r'.lookup field = none) ∧
      (r'.project d.fields).columns =
        d.fields.filterMap fun field => (r.remains d.fields field).map (⟨field, ·⟩) := by
  refine ⟨without d.fields r, ?_, ?_, ?_, ?_, ?_⟩
  · rw [records_of_delete hfields h, List.getElem?_map, hr, Option.map_some,
      Condition.met_of_ok hmet]
    rfl
  · exact fun field hfield => Record.lookup_without hfield r
  · intro field hfield
    rw [Record.lookup_without hfield, remains]
    by_cases hroot : root field ∈ d.fields <;> simp [hroot]
  · intro field hfield hpoint
    rw [Record.lookup_without hfield, remains, Record.root_of_not_mem hpoint, if_pos hfield]
  · rw [Record.project, if_neg hfields]
    refine List.filterMap_congr fun field hfield => ?_
    rw [Record.lookup_without hfield]

def addressed : Store :=
  ⟨[⟨"Person", [⟨⟨"Person", [⟨"name", .string "Ada"⟩,
    ⟨"address", .document [⟨"city", .string "Paris"⟩]⟩]⟩, none⟩]⟩]⟩

def unnaming : Deletion := ⟨"Person", ["name", "address.city"], none⟩

theorem addressed_left :
    ∃ t, addressed.delete unnaming = (.ok (), t) ∧ ∃ r', (t.records "Person")[0]? = some r' ∧
      r'.lookup "name" = none ∧ r'.lookup "address.city" = some (.string "Paris") := by
  have hdelete : addressed.delete unnaming = (.ok (), ⟨[⟨"Person", [⟨⟨"Person",
      [⟨"address", .document [⟨"city", .string "Paris"⟩]⟩]⟩, none⟩]⟩]⟩) := rfl
  refine ⟨_, hdelete, ?_⟩
  obtain ⟨r', hr', hlookup, -, hplain, -⟩ :=
    deletion_leaves_nested (by decide) hdelete (i := 0) rfl rfl
  refine ⟨r', hr', hplain "name" (by decide) (by decide), ?_⟩
  rw [hlookup "address.city" (by decide)]
  cbv

def doublyAddressed : Store :=
  ⟨[⟨"Person", [⟨⟨"Person", [⟨"address.city", .string "Rome"⟩,
    ⟨"address", .document [⟨"city", .string "Paris"⟩]⟩]⟩, none⟩]⟩]⟩

/-- The deletion of a dotted field succeeds and leaves it, be it that its parts led to it before or
that they lead to it now that the column of its name is gone. -/
theorem dotted_field_kept :
    addressed.delete ⟨"Person", ["address.city"], none⟩ = (.ok (), addressed) ∧
    ((addressed.records "Person").map fun r => r.lookup "address.city") = [some (.string "Paris")] ∧
    ∃ t, doublyAddressed.delete ⟨"Person", ["address.city"], none⟩ = (.ok (), t) ∧
      ((t.records "Person").map fun r => r.lookup "address.city") = [some (.string "Paris")] := by
  refine ⟨rfl, ?_, _, rfl, ?_⟩ <;> cbv

end Store

end RecordQuery
