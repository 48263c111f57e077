import Mathlib.Data.List.Sort
import Mathlib.Data.String.Basic
import RecordQuery.Json.Basic

namespace RecordQuery

namespace Named

variable {α β : Type} {name : String} {v : α} {cs ds : List (Named α)}

def Rising (cs : List (Named α)) : Prop := cs.Pairwise fun a b => a.name < b.name

theorem Rising.nodup (h : Rising cs) : (cs.map Named.name).Nodup :=
  List.pairwise_map.2 (h.imp fun hlt => ne_of_lt hlt)

theorem Rising.eq_of_perm (hcs : Rising cs) (hds : Rising ds) (h : cs.Perm ds) : cs = ds :=
  h.eq_of_pairwise (fun _ _ _ _ hab hba => absurd hba (lt_asymm hab)) hcs hds

theorem Rising.map {f : Named α → Named β} (h : Rising cs) (hf : ∀ c, (f c).name = c.name) :
    Rising (cs.map f) := by
  refine List.pairwise_map.2 (h.imp fun {a b} hlt => ?_)
  rwa [hf, hf]

theorem mem_iff_find? (h : (cs.map Named.name).Nodup) :
    ⟨name, v⟩ ∈ cs ↔ find? name cs = some v := by
  refine ⟨fun hmem => ?_, mem_of_find?_eq_some⟩
  induction cs with
  | nil => cases hmem
  | cons c cs ih =>
      rw [List.map_cons, List.nodup_cons] at h
      rcases List.mem_cons.1 hmem with rfl | hmem
      · exact find?_cons_self name v cs
      · have hne : c.name ≠ name := by
          rintro rfl
          exact h.1 (List.mem_map.2 ⟨_, hmem, rfl⟩)
        rw [find?_cons_of_ne hne]
        exact ih h.2 hmem

theorem find?_perm (h : (cs.map Named.name).Nodup) (hperm : cs.Perm ds) (name : String) :
    find? name cs = find? name ds := by
  have hds : (ds.map Named.name).Nodup := (hperm.map Named.name).nodup_iff.1 h
  refine Option.ext fun v => ?_
  rw [← mem_iff_find? h, ← mem_iff_find? hds]
  exact hperm.mem_iff

theorem find?_map (f : α → β) (name : String) (cs : List (Named α)) :
    find? name (cs.map fun c => ⟨c.name, f c.value⟩) = (find? name cs).map f := by
  induction cs with
  | nil => rfl
  | cons c cs ih =>
      rw [List.map_cons, find?, find?, ih]
      split <;> rfl

section Ranked

def NotBehind (a b : Named α) : Prop := a.name ≤ b.name

instance : DecidableRel (@NotBehind α) := fun a b => inferInstanceAs (Decidable (a.name ≤ b.name))

instance : Std.Total (@NotBehind α) := ⟨fun a b => le_total a.name b.name⟩

instance : IsTrans (Named α) NotBehind := ⟨fun _ _ _ => le_trans⟩

def ranked (cs : List (Named α)) : List (Named α) := cs.insertionSort NotBehind

theorem ranked_perm (cs : List (Named α)) : (ranked cs).Perm cs := List.perm_insertionSort _ cs

theorem mem_ranked {c : Named α} : c ∈ ranked cs ↔ c ∈ cs := (ranked_perm cs).mem_iff

theorem rising_ranked (h : (cs.map Named.name).Nodup) : Rising (ranked cs) := by
  have hsorted : (ranked cs).Pairwise NotBehind := List.pairwise_insertionSort _ cs
  have hnodup : (ranked cs).Pairwise fun a b => a.name ≠ b.name :=
    List.pairwise_map.1 (((ranked_perm cs).map Named.name).nodup_iff.2 h)
  exact (hsorted.and hnodup).imp fun hab => lt_of_le_of_ne hab.1 hab.2

theorem ranked_of_rising (h : Rising cs) : ranked cs = cs :=
  List.Pairwise.insertionSort_eq (h.imp fun hlt => le_of_lt hlt)

theorem ranked_map (f : α → β) (cs : List (Named α)) :
    ranked (cs.map fun c => ⟨c.name, f c.value⟩) = (ranked cs).map fun c => ⟨c.name, f c.value⟩ := by
  symm
  apply List.map_insertionSort
  intro a _ b _
  exact Iff.rfl

theorem ranked_ranked (cs : List (Named α)) : ranked (ranked cs) = ranked cs :=
  List.Pairwise.insertionSort_eq (List.pairwise_insertionSort NotBehind cs)

theorem nodup_ranked (h : (cs.map Named.name).Nodup) : ((ranked cs).map Named.name).Nodup :=
  ((ranked_perm cs).map Named.name).nodup_iff.2 h

theorem find?_ranked (h : (cs.map Named.name).Nodup) (name : String) :
    find? name (ranked cs) = find? name cs :=
  (find?_perm h (ranked_perm cs).symm name).symm

end Ranked

end Named

namespace Json

open Named (Rising ranked)

variable {name : String} {v : Json} {cs fields : List (Named Json)}

theorem mem_of_mem_insertField {c : Named Json} (h : c ∈ insertField name v cs) :
    c = ⟨name, v⟩ ∨ c ∈ cs := by
  induction cs with
  | nil => exact .inl (List.mem_singleton.1 h)
  | cons d ds ih =>
      rw [insertField] at h
      split at h
      · exact List.mem_cons.1 h
      · split at h
        · exact (List.mem_cons.1 h).imp id (List.mem_cons_of_mem d)
        · rcases List.mem_cons.1 h with rfl | h
          · exact .inr List.mem_cons_self
          · exact (ih h).imp id (List.mem_cons_of_mem d)

theorem rising_insertField (h : Rising cs) (name : String) (v : Json) :
    Rising (insertField name v cs) := by
  induction cs with
  | nil => exact List.pairwise_singleton _ _
  | cons d ds ih =>
      have htail := List.pairwise_cons.1 h
      rw [insertField]
      split
      · next hlt =>
          refine List.pairwise_cons.2 ⟨?_, h⟩
          exact List.forall_mem_cons.2 ⟨hlt, fun c hc => lt_trans hlt (htail.1 c hc)⟩
      · next hlt =>
          split
          · next heq =>
              subst heq
              exact List.pairwise_cons.2 htail
          · next hne =>
              have hbehind : d.name < name := lt_of_le_of_ne (not_lt.1 hlt) hne
              refine List.pairwise_cons.2 ⟨fun c hc => ?_, ih htail.2⟩
              rcases mem_of_mem_insertField hc with rfl | hc
              · exact hbehind
              · exact htail.1 c hc

theorem insertField_perm (h : name ∉ cs.map Named.name) (v : Json) :
    (insertField name v cs).Perm (⟨name, v⟩ :: cs) := by
  induction cs with
  | nil => exact .refl _
  | cons d ds ih =>
      simp only [List.map_cons, List.mem_cons, not_or] at h
      rw [insertField]
      split
      · exact .refl _
      · rw [if_neg (Ne.symm h.1)]
        exact ((ih h.2).cons d).trans (.swap _ d ds)

def insertFields (done fields : List (Named Json)) : List (Named Json) :=
  fields.foldl (fun done c => insertField c.name c.value done) done

theorem ofFields_eq (fields : List (Named Json)) : ofFields fields = .object (insertFields [] fields) :=
  rfl

theorem rising_insertFields {done : List (Named Json)} (h : Rising done)
    (fields : List (Named Json)) : Rising (insertFields done fields) := by
  induction fields generalizing done with
  | nil => exact h
  | cons c cs ih => exact ih (rising_insertField h c.name c.value)

theorem mem_of_mem_insertFields {c : Named Json} {done : List (Named Json)}
    (h : c ∈ insertFields done fields) : c ∈ done ∨ c ∈ fields := by
  induction fields generalizing done with
  | nil => exact .inl h
  | cons d ds ih =>
      rcases ih h with h | h
      · rcases mem_of_mem_insertField h with rfl | h
        · exact .inr List.mem_cons_self
        · exact .inl h
      · exact .inr (List.mem_cons_of_mem d h)

theorem insertFields_perm {done : List (Named Json)}
    (h : ((done ++ fields).map Named.name).Nodup) :
    (insertFields done fields).Perm (done ++ fields) := by
  induction fields generalizing done with
  | nil => simp [insertFields]
  | cons c cs ih =>
      have hmiddle : (done ++ c :: cs).Perm ((c :: done) ++ cs) := List.perm_middle
      have hnodup := (hmiddle.map Named.name).nodup_iff.1 h
      have hnew : c.name ∉ done.map Named.name := by
        intro hmem
        rw [List.cons_append, List.map_cons, List.nodup_cons, List.map_append] at hnodup
        exact hnodup.1 (List.mem_append_left _ hmem)
      have hperm := (insertField_perm hnew c.value).append_right cs
      exact (ih ((hperm.map Named.name).nodup_iff.2 hnodup)).trans (hperm.trans hmiddle.symm)

theorem rising_ofFields (fields : List (Named Json)) :
    ∃ cs, ofFields fields = .object cs ∧ Rising cs ∧ ∀ c ∈ cs, c ∈ fields := by
  refine ⟨_, ofFields_eq fields, rising_insertFields .nil fields, fun c hc => ?_⟩
  exact (mem_of_mem_insertFields hc).resolve_left (List.not_mem_nil)

theorem ofFields_of_nodup (h : (fields.map Named.name).Nodup) :
    ofFields fields = .object (ranked fields) := by
  have hperm := @insertFields_perm fields [] h
  rw [ofFields_eq]
  refine congrArg _ ((rising_insertFields .nil fields).eq_of_perm (Named.rising_ranked h) ?_)
  exact hperm.trans (Named.ranked_perm fields).symm

theorem ofFields_of_rising (h : Rising fields) : ofFields fields = .object fields := by
  rw [ofFields_of_nodup h.nodup, Named.ranked_of_rising h]

end Json

end RecordQuery
