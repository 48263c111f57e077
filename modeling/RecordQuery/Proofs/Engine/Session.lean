import RecordQuery.Proofs.Cache.Requests
import RecordQuery.Proofs.Params.Prepared
import RecordQuery.Proofs.Statement.Recording
import RecordQuery.Proofs.Store.Kept
import RecordQuery.Proofs.Store.Reloading

namespace RecordQuery

open Value (Formed Keyed Finite)

theorem Written.formed_of_resolve {limits : Limits} {naming : Naming} {text : String} {w : Written}
    {c : Command} (h : ofText limits text = .ok w) (hc : w.resolve naming = .ok c) : c.Formed := by
  have hrename : ∀ r : Record, r.Recorded → ∀ column ∈ (r.rename naming).columns,
      column.value.Each Formed := by
    intro r hr column hcolumn
    obtain ⟨d, hd, rfl⟩ := List.mem_map.1 hcolumn
    exact hr.formed d hd
  cases w with
  | select | delete =>
      obtain ⟨tree, -, hc⟩ := Outcome.bind_eq_ok.1 hc
      cases hc
      intro r hr
      cases hr
  | insert r ttl =>
      have hrecorded := recorded_of_ofText h (resolve_insert r ttl) (.inl rfl)
      cases hc
      rintro _ ⟨⟩
      exact hrename r hrecorded.1
  | update r =>
      have hrecorded := recorded_of_ofText h (resolve_update r) (.inr rfl)
      cases hc
      rintro _ ⟨⟩
      exact hrename r hrecorded

theorem Query.formed_of_parse {limits : Limits} {naming : Naming} {text : String} {q : Query}
    (h : parse limits naming text = .ok q) : q.command.Formed := by
  obtain ⟨w, hw, h⟩ := Outcome.bind_eq_ok.1 h
  obtain ⟨c, hc, rfl⟩ := Outcome.map_eq_ok.1 h
  exact Written.formed_of_resolve hw hc

theorem Command.Formed.subst {c : Command} {σ : String → Value} (h : c.Formed)
    (hσ : ∀ n ∈ c.params, (σ n).Each Value.Formed) : (c.subst σ).Formed := by
  have hcolumns : ∀ cs : List Column, (∀ d ∈ cs, d.value.Each Value.Formed) →
      (∀ n ∈ Value.columnParams cs, (σ n).Each Value.Formed) →
      ∀ d ∈ Value.substColumns σ cs, d.value.Each Value.Formed := by
    intro cs hcs hσ d hd
    rw [Value.substColumns_eq_map] at hd
    obtain ⟨d, hmem, rfl⟩ := List.mem_map.1 hd
    refine Value.each_formed_subst (hcs d hmem) fun n hn => hσ n ?_
    rw [Value.columnParams_eq_flatMap]
    exact List.mem_flatMap.2 ⟨d, hmem, hn⟩
  cases c with
  | select | delete =>
      intro r hr
      cases hr
  | insert r ttl | update r =>
      rintro _ ⟨⟩
      exact hcolumns r.columns (h r rfl) hσ

namespace Prepared

variable {limits : Limits} {naming : Naming} {text : String} {q : Query}
  {binds : List (String × Value)} {P : Value → Prop}

theorem formed_filled (h : Query.parse limits naming text = .ok q)
    (hbinds : ∀ b ∈ binds, b.2.Each Keyed) (hclosed : (filled q binds).params = []) :
    (filled q binds).Formed := by
  rw [filled, Command.params_subst, List.flatMap_eq_nil_iff] at hclosed
  refine (Query.formed_of_parse h).subst fun n hn => ?_
  have hvalue := hclosed n hn
  cases hlast : lastBound binds n with
  | none =>
      rw [hlast] at hvalue
      cases hvalue
  | some v =>
      rw [hlast] at hvalue
      exact Value.each_formed_of_keyed (hbinds _ (mem_of_lastBound hlast)) hvalue

/-- A prepared statement as an engine gives it, with values of a kind bound. -/
def Issued (P : Value → Prop) (p : Prepared) : Prop :=
  ∃ limits naming text q binds, Query.parse limits naming text = .ok q ∧
    (∀ b ∈ binds, P b.2) ∧ p = (ofQuery q).bindAll binds

namespace Issued

variable {p : Prepared} {s : Store}

theorem bind {v : Value} (h : p.Issued P) (name : String) (hv : P v) :
    (p.bind name v).Issued P := by
  obtain ⟨limits, naming, text, q, binds, hq, hbinds, rfl⟩ := h
  refine ⟨limits, naming, text, q, binds ++ [(name, v)], hq, ?_, ?_⟩
  · exact List.forall_mem_append.2 ⟨hbinds, List.forall_mem_singleton.2 hv⟩
  · rw [bindAll, bindAll, List.foldl_append]
    rfl

theorem kept (h : p.Issued P) (hs : s.Kept) : (p.execute Store.backend s).2.Kept := by
  obtain ⟨limits, naming, text, q, binds, hq, hbinds, rfl⟩ := h
  rw [execute_bindAll hq]
  split
  · exact hs.execute _
  · exact hs

theorem formed (h : p.Issued P) (hP : ∀ v, P v → v.Each Keyed) (hs : s.Formed) :
    (p.execute Store.backend s).2.Formed := by
  obtain ⟨limits, naming, text, q, binds, hq, hbinds, rfl⟩ := h
  rw [execute_bindAll hq]
  split
  · exact hs.execute (formed_filled hq fun b hb => hP _ (hbinds b hb))
  · exact hs

end Issued

end Prepared

namespace Engine

variable {e : Engine} {text : String} {s : Store}

theorem parse_fst (h : e.cache.Truthful) (text : String) :
    (e.parse text).1 = Query.parse e.cache.limits e.naming text :=
  h.get_fst e.naming text

theorem parse_truthful (h : e.cache.Truthful) (text : String) :
    (e.parse text).2.cache.Truthful :=
  (h.written_snd text).1

theorem issued_of_prepare {P : Value → Prop} {p : Prepared} (h : e.cache.Truthful)
    (hp : (e.prepare text).1 = .ok p) : p.Issued P := by
  obtain ⟨q, hq, rfl⟩ := Outcome.map_eq_ok.1 hp
  exact ⟨_, _, text, q, [], (parse_fst h text).symm.trans hq, List.forall_mem_nil _, rfl⟩

theorem query_snd (h : e.cache.Truthful) (text : String) (s : Store) :
    (e.query Store.backend text s).2 = ((e.parse text).2, s) ∨
      ∃ q, Query.parse e.cache.limits e.naming text = .ok q ∧
        (e.query Store.backend text s).2 =
          ((e.parse text).2, (Store.backend.execute q.command s).2) := by
  cases hq : (e.parse text).1 with
  | error err =>
      rw [query_of_parse_error Store.backend s hq]
      exact .inl rfl
  | ok q =>
      rw [query_of_parse_ok Store.backend s hq]
      split
      · exact .inr ⟨q, (parse_fst h text).symm.trans hq, rfl⟩
      · exact .inl rfl

end Engine

structure Session where
  engine : Engine
  prepared : List Prepared
  store : Store

namespace Session

variable {t : Session} {P : Value → Prop}

/-- The sessions that start from loaded data, with values of a kind bound. -/
inductive Reached (P : Value → Prop) : Session → Prop
  | loaded (limits : Limits) (naming : Naming) {data : Json} {s : Store} (hdata : data.Held)
      (h : Store.ofJson data = .ok s) : Reached P ⟨.ofLimits limits naming, [], s⟩
  | queried {t : Session} (text : String) (h : Reached P t) :
      Reached P ⟨(t.engine.query Store.backend text t.store).2.1, t.prepared,
        (t.engine.query Store.backend text t.store).2.2⟩
  | parsed {t : Session} (text : String) (h : Reached P t) :
      Reached P { t with engine := (t.engine.parse text).2 }
  | prepared {t : Session} {p : Prepared} (text : String) (h : Reached P t)
      (hp : (t.engine.prepare text).1 = .ok p) :
      Reached P ⟨(t.engine.prepare text).2, p :: t.prepared, t.store⟩
  | bound {t : Session} {p : Prepared} {v : Value} (name : String) (h : Reached P t)
      (hp : p ∈ t.prepared) (hv : P v) :
      Reached P { t with prepared := p.bind name v :: t.prepared }
  | executed {t : Session} {p : Prepared} (h : Reached P t) (hp : p ∈ t.prepared) :
      Reached P { t with store := (p.execute Store.backend t.store).2 }

/-- What a session keeps: a cache that holds what texts are read as, prepared statements as they were
issued, and a store that can be loaded again. -/
structure Orderly (P : Value → Prop) (t : Session) : Prop where
  cache : t.engine.cache.Truthful
  prepared : ∀ p ∈ t.prepared, p.Issued P
  kept : t.store.Kept
  formed : (∀ v, P v → v.Each Keyed) → t.store.Formed

theorem Reached.orderly (h : t.Reached P) : t.Orderly P := by
  induction h with
  | loaded limits naming hdata h =>
      exact {
        cache := .ofLimits limits
        prepared := List.forall_mem_nil _
        kept := Store.kept_ofJson hdata h
        formed := fun _ => Store.formed_ofJson hdata h }
  | @queried t text _ ih =>
      have hcache := Engine.parse_truthful ih.cache text
      rcases Engine.query_snd ih.cache text t.store with hquery | ⟨q, hq, hquery⟩
      · rw [hquery]
        exact { ih with cache := hcache }
      · rw [hquery]
        exact {
          cache := hcache
          prepared := ih.prepared
          kept := ih.kept.execute q.command
          formed := fun hP => (ih.formed hP).execute fun _ => Query.formed_of_parse hq }
  | parsed text _ ih => exact { ih with cache := Engine.parse_truthful ih.cache text }
  | prepared text _ hp ih =>
      exact { ih with
        cache := Engine.parse_truthful ih.cache text
        prepared := List.forall_mem_cons.2 ⟨Engine.issued_of_prepare ih.cache hp, ih.prepared⟩ }
  | bound name _ hp hv ih =>
      have hissued := (ih.prepared _ hp).bind name hv
      exact { ih with prepared := List.forall_mem_cons.2 ⟨hissued, ih.prepared⟩ }
  | executed _ hp ih =>
      have hissued := ih.prepared _ hp
      exact { ih with
        kept := hissued.kept ih.kept
        formed := fun hP => hissued.formed hP (ih.formed hP) }

/-- The store of a session can be written as data and loaded again. Where the records of an entity
have no column twice, no document with a key twice and no number that is not finite, every selection
of them fails with the same error before and after, or returns the same rows in the same order: they
are written as the same data, and their columns are the same but for the order in which they stand,
which is the same too where fields are listed. Documents with a key twice are only held where one was
bound. -/
theorem reloading_keeps_answers (h : t.Reached P) :
    (∃ s, Store.ofJson t.store.toJson = .ok s ∧
      ∀ q : Selection, (∀ r ∈ t.store.records q.entity, r.Lasting) →
        (s.select q).map (List.map Record.toJson) =
          (t.store.select q).map (List.map Record.toJson) ∧
        (s.select q).map (List.map Record.filed) =
          (t.store.select q).map (List.map Record.filed) ∧
        (q.fields ≠ [] → (s.select q).map (List.map Record.names) =
          (t.store.select q).map (List.map Record.names))) ∧
    ((∀ v, P v → v.Each Keyed) → ∀ entity, ∀ r ∈ t.store.records entity,
      (r.columns.map Named.name).Nodup → r.document.Each Keyed) := by
  obtain ⟨-, -, ⟨hdistinct, hsound⟩, hformed⟩ := h.orderly
  refine ⟨⟨_, Store.ofJson_toJson hdistinct hsound, fun q hlasting => ⟨?_, ?_, fun hfields => ?_⟩⟩,
    fun hP entity r hr hcolumns => (hformed hP).keyed hr hcolumns⟩
  · apply Store.select_reloaded hdistinct hsound hlasting
    exact fun r hr => r.toJson_project_filed hr q.fields
  · apply Store.select_reloaded hdistinct hsound hlasting
    exact fun r hr => r.filed_project_filed hr q.fields
  · apply Store.select_reloaded hdistinct hsound hlasting
    exact fun r hr => r.names_project_filed hr hfields

def seated : Query :=
  ⟨.insert ⟨"God", [⟨"seat", .document [⟨"y", .int 1⟩, ⟨"x", .int 2⟩]⟩, ⟨"name", .param "n"⟩]⟩ none,
    ⟨["n"], []⟩⟩

set_option maxRecDepth 2000 in
theorem parse_seated : Query.parse {} .identity
    "insert God (seat = \x7b\"y\": 1, \"x\": 2\x7d, name = @n)" = .ok seated := by
  cbv

def diana : Record := ⟨"God", [⟨"name", .string "Diana"⟩]⟩

def hera : Record :=
  ⟨"God", [⟨"seat", .document [⟨"y", .int 1⟩, ⟨"x", .int 2⟩]⟩, ⟨"name", .string "Hera"⟩]⟩

theorem reached_hera : ∃ e, Reached (Value.Each Keyed)
    ⟨e, [(Prepared.ofQuery seated).bind "n" (.string "Hera"), Prepared.ofQuery seated],
      ⟨[⟨"God", [⟨diana, none⟩, ⟨hera, none⟩]⟩]⟩⟩ := by
  have hdata : (Json.object [⟨"God", .array [.object [⟨"name", .string "Diana"⟩]]⟩]).Held := by
    have hrising : ∀ c : Named Json, Named.Rising [c] := fun c => List.pairwise_singleton _ c
    exact ⟨hrising _, ⟨⟨hrising _, trivial, trivial⟩, trivial⟩, trivial⟩
  have hloaded := Reached.loaded (P := Value.Each Keyed) {} .identity hdata rfl
  have hprepare : ((Engine.ofLimits {} .identity).prepare
      "insert God (seat = \x7b\"y\": 1, \"x\": 2\x7d, name = @n)").1 =
        .ok (Prepared.ofQuery seated) := by
    have hparse := parse_seated
    rw [← Engine.parse_ofLimits] at hparse
    exact Outcome.map_eq_ok.2 ⟨seated, hparse, rfl⟩
  have hprepared := Reached.prepared _ hloaded hprepare
  have hbound := Reached.bound (v := .string "Hera") "n" hprepared List.mem_cons_self trivial
  exact ⟨_, Reached.executed hbound List.mem_cons_self⟩

def bySeat : Selection :=
  ⟨"God", [], some (.compare .equal ⟨"seat", .document [⟨"x", .int 2⟩, ⟨"y", .int 1⟩]⟩),
    [⟨"seat.x", .descending⟩], 0, 0⟩

theorem lasting_hera : ∀ r ∈ [diana, hera], r.document.Each Keyed → r.Lasting := by
  have hdiana : diana.document.Each Finite := ⟨trivial, trivial, trivial⟩
  have hhera : hera.document.Each Finite :=
    ⟨trivial, ⟨trivial, trivial, trivial, trivial⟩, trivial, trivial⟩
  exact List.forall_mem_cons.2 ⟨fun h => ⟨h, hdiana⟩, List.forall_mem_singleton.2 fun h => ⟨h, hhera⟩⟩

theorem hera_reloaded : ∃ t : Session, t.Reached (Value.Each Keyed) ∧
    t.store.records "God" = [diana, hera] ∧ (∀ r ∈ t.store.records "God", r.Lasting) ∧
    t.store.select bySeat = .ok [hera] ∧
    ∃ s, Store.ofJson t.store.toJson = .ok s ∧
      (s.select bySeat).map (List.map Record.toJson) = .ok [hera.toJson] ∧
      (s.select bySeat).map (List.map Record.filed) = .ok [hera.filed] ∧ hera.filed ≠ hera := by
  obtain ⟨e, ht⟩ := reached_hera
  obtain ⟨⟨s, hs, hanswers⟩, hkeyed⟩ := reloading_keeps_answers ht
  have hlasting : ∀ r ∈ [diana, hera], r.Lasting := fun r hr => by
    refine lasting_hera r hr (hkeyed (fun v hv => hv) "God" r hr ?_)
    revert r
    decide
  obtain ⟨hjson, hfiled, -⟩ := hanswers bySeat hlasting
  exact ⟨_, ht, rfl, hlasting, rfl, s, hs, hjson, hfiled, by decide⟩

def asked (text : String) : Session :=
  ⟨((Engine.ofLimits {} .identity).query Store.backend text Store.empty).2.1, [],
    ((Engine.ofLimits {} .identity).query Store.backend text Store.empty).2.2⟩

theorem reached_asked (text : String) : (asked text).Reached P := by
  have hdata : (Json.object []).Held := ⟨.nil, trivial⟩
  have hloaded : Reached P ⟨.ofLimits {} .identity, [], Store.empty⟩ := .loaded {} .identity hdata rfl
  exact hloaded.queried text

theorem store_asked {text : String} {q : Query} (h : Query.parse {} .identity text = .ok q)
    (hclosed : q.command.params = []) :
    (asked text).store = (Store.backend.execute q.command Store.empty).2 := by
  rw [← Engine.parse_ofLimits] at h
  rw [asked, Engine.query_of_parse_ok _ _ h, if_pos hclosed]

def endless : Query :=
  ⟨.insert ⟨"God", [⟨"name", .string "a"⟩,
    ⟨"age", .float ⟨false, 0x7FF0000000000000, by decide⟩⟩]⟩ none, ⟨[], []⟩⟩

theorem parse_endless :
    Query.parse {} .identity "insert God (name = \"a\", age = 1e999)" = .ok endless := by
  cbv

def repeated : Query :=
  ⟨.insert ⟨"God", [⟨"age", .int 1⟩, ⟨"age", .int 2⟩]⟩ none, ⟨[], []⟩⟩

theorem parse_repeated :
    Query.parse {} .identity "insert God (age = 1, age = 2)" = .ok repeated := by
  cbv

def pastFive : Selection :=
  ⟨"God", ["name"], some (.compare .greater ⟨"age", .int 5⟩), [], 0, 0⟩

def ages : Selection := ⟨"God", ["age"], none, [], 0, 0⟩

/-- A number that is too large for a floating one is stored as infinite and comes back as null, which
no number is compared with. Of a column that is assigned twice the first value is looked up, and the
last comes back. -/
theorem endless_not_reloaded :
    (∀ text, (asked text).Reached (Value.Each Keyed)) ∧
    (∃ s, Store.ofJson (asked "insert God (name = \"a\", age = 1e999)").store.toJson = .ok s ∧
      (asked "insert God (name = \"a\", age = 1e999)").store.select pastFive =
        .ok [⟨"God", [⟨"name", .string "a"⟩]⟩] ∧
      s.select pastFive = .ok []) ∧
    ∃ s, Store.ofJson (asked "insert God (age = 1, age = 2)").store.toJson = .ok s ∧
      (asked "insert God (age = 1, age = 2)").store.select ages =
        .ok [⟨"God", [⟨"age", .int 1⟩]⟩] ∧
      s.select ages = .ok [⟨"God", [⟨"age", .int 2⟩]⟩] := by
  rw [store_asked parse_endless rfl, store_asked parse_repeated rfl]
  exact ⟨reached_asked, ⟨_, rfl, by decide +kernel, rfl⟩, ⟨_, rfl, rfl, rfl⟩⟩

end Session

end RecordQuery
