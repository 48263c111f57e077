import RecordQuery.Proofs.CommandLine.Bindings
import RecordQuery.Proofs.Store.Loading

namespace RecordQuery.CommandLine

variable {limits : Limits} {naming : Naming} {text : String} {q : Query} {raws : List String}
  {store store' : Store} {rows : List Record}

theorem store_of_selection (h : Query.parse limits naming text = .ok q)
    (hselect : q.command.verb = .select) (hcarry : carryOut q raws store = .ok (rows, store')) :
    store' = store := by
  obtain ⟨binds, hbinds, -⟩ := Outcome.bind_eq_ok.1 hcarry
  rw [carryOut_eq h hbinds] at hcarry
  split at hcarry
  · obtain ⟨_, -, heq⟩ := Outcome.map_eq_ok.1 hcarry
    cases heq
    unfold Prepared.filled
    cases hcommand : q.command with
    | select sel => rfl
    | delete | insert | update =>
        rw [hcommand] at hselect
        cases hselect
  · cases hcarry

theorem data_of_loadData {path content : String} (h : loadData path (.text content) = .ok store) :
    ∃ data, Json.read? .inSteps content = some data ∧ Store.ofJson data = .ok store := by
  unfold loadData at h
  dsimp only at h
  split at h
  · cases h
  · next data hdata =>
      refine ⟨data, hdata, ?_⟩
      cases hstore : Store.ofJson data with
      | ok s =>
          rw [hstore] at h
          cases h
          rfl
      | error e =>
          rw [hstore] at h
          cases h

theorem data_of_report {format : OutputFormat} {path content : String} {report : Report}
    (h : Query.parse limits .identity text = .ok q) (hselect : q.command.verb = .select)
    (hreport : (Task.run text path raws true).report format limits (.text content) = .ok report) :
    ∃ data, Json.read? .inSteps content = some data ∧
      report.data = some data.narrowed.pretty := by
  obtain ⟨store, hload, hreport⟩ := Outcome.bind_eq_ok.1 hreport
  obtain ⟨data, hdata, hstore⟩ := data_of_loadData hload
  rw [h] at hreport
  obtain ⟨_, hq, hreport⟩ := Outcome.bind_eq_ok.1 hreport
  cases hq
  obtain ⟨⟨rows, store'⟩, hcarry, hreport⟩ := Outcome.bind_eq_ok.1 hreport
  cases hreport
  refine ⟨data, hdata, ?_⟩
  rw [store_of_selection h hselect hcarry,
    Store.toJson_of_ofJson (Json.held_of_read? hdata) hstore]
  rfl

theorem exists_report {format : OutputFormat} {path content : String} {data : Json}
    {writeBack : Bool} (hdata : Json.read? .inSteps content = some data)
    (hstore : Store.ofJson data = .ok store) (h : Query.parse limits .identity text = .ok q)
    (hcarry : carryOut q raws store = .ok (rows, store')) :
    ∃ report,
      (Task.run text path raws writeBack).report format limits (.text content) = .ok report := by
  have hload : loadData path (.text content) = .ok store := by
    unfold loadData
    simp only [hdata, hstore]
    rfl
  have hparse : ofOutcome (Query.parse limits .identity text) = .ok q := by
    rw [h]
    rfl
  exact ⟨_, Outcome.bind_eq_ok.2 ⟨store, hload, Outcome.bind_eq_ok.2 ⟨q, hparse,
    Outcome.bind_eq_ok.2 ⟨(rows, store'), hcarry, rfl⟩⟩⟩⟩

/-- Data that are taken for a value, or loaded into a store, and written again come back but for the
integers that are too large for a signed one of 64 bits: each of these comes back as the nearest
binary number. So the data come back as they were where there is no such integer, and with their
numbers worth the same exactly where each of them is a multiple of 2048. A selection that writes back
writes the data that were read from its file in this form. -/
theorem selection_writes_narrowed :
    (∀ v : Json, v.Held → (Value.ofJson v).toJson = v.narrowed ∧
      (v.narrowed = v ↔ v.EachInt (· < 0x8000000000000000)) ∧
      (v.narrowed.inUnits = v.inUnits ↔
        v.EachInt fun i => 0x8000000000000000 ≤ i → i % 2048 = 0)) ∧
    (∀ (data : Json) (s : Store), data.Held → Store.ofJson data = .ok s →
      s.toJson = data.narrowed) ∧
    ∀ (limits : Limits) (format : OutputFormat) (text path content : String) (q : Query)
      (raws : List String) (report : Report), Query.parse limits .identity text = .ok q →
      q.command.verb = .select →
      (Task.run text path raws true).report format limits (.text content) = .ok report →
        ∃ data, Json.read? .inSteps content = some data ∧ data.Held ∧
          report.data = some data.narrowed.pretty := by
  refine ⟨fun v hv => ⟨Value.toJson_ofJson hv, Json.narrowed_eq_iff hv,
    Json.inUnits_narrowed_eq_iff hv⟩, fun data s => Store.toJson_of_ofJson, ?_⟩
  intro limits format text path content q raws report h hselect hreport
  obtain ⟨data, hdata, hwritten⟩ := data_of_report h hselect hreport
  exact ⟨data, hdata, Json.held_of_read? hdata, hwritten⟩

def listed : Query := ⟨.select ⟨"God", [], none, [], 0, 0⟩, ⟨[], []⟩⟩

theorem parse_listed : Query.parse {} .identity "select * from God" = .ok listed := by
  cbv

def numbered (i : Int) : Json := .object [⟨"God", .array [.object [⟨"n", .int i⟩]]⟩]

theorem read_edge :
    Json.read? .inSteps "\x7b\"God\":[\x7b\"n\":9223372036854775808\x7d]\x7d" =
      some (numbered 9223372036854775808) := by
  refine @Json.read?_of_toList _ _ ['\x7b', '"', 'G', 'o', 'd', '"', ':', '[', '\x7b', '"', 'n', '"',
    ':', '9', '2', '2', '3', '3', '7', '2', '0', '3', '6', '8', '5', '4', '7', '7', '5', '8', '0', '8',
    '\x7d', ']', '\x7d'] _ rfl ?_
  cbv

theorem read_top :
    Json.read? .inSteps "\x7b\"God\":[\x7b\"n\":18446744073709551615\x7d]\x7d" =
      some (numbered 18446744073709551615) := by
  refine @Json.read?_of_toList _ _ ['\x7b', '"', 'G', 'o', 'd', '"', ':', '[', '\x7b', '"', 'n', '"',
    ':', '1', '8', '4', '4', '6', '7', '4', '4', '0', '7', '3', '7', '0', '9', '5', '5', '1', '6', '1',
    '5', '\x7d', ']', '\x7d'] _ rfl ?_
  cbv

theorem held_numbered {i : Int} (h : (Json.int i).Held) : (numbered i).Held := by
  have hrising : ∀ c : Named Json, Named.Rising [c] := fun c => List.pairwise_singleton _ c
  simp only [numbered, Json.held_object, Json.held_array, List.forall_mem_singleton]
  exact ⟨hrising _, hrising _, h⟩

theorem eachInt_numbered {P : Int → Prop} {i : Int} : (numbered i).EachInt P ↔ P i := by
  simp [numbered, Json.EachInt, Json.FieldsEachInt, Json.ItemsEachInt]

theorem exists_report_numbered {content : String} {i : Int}
    (hdata : Json.read? .inSteps content = some (numbered i)) :
    ∃ report, (Task.run "select * from God" "data.json" [] true).report .text {} (.text content) =
      .ok report :=
  exists_report (q := listed) hdata rfl parse_listed rfl

theorem edge_writes_back :
    ∃ report, (Task.run "select * from God" "data.json" [] true).report .text {}
        (.text "\x7b\"God\":[\x7b\"n\":9223372036854775808\x7d]\x7d") = .ok report ∧
      report.data = some (numbered 9223372036854775808).narrowed.pretty ∧
      (numbered 9223372036854775808).narrowed ≠ numbered 9223372036854775808 ∧
      (numbered 9223372036854775808).narrowed.inUnits = (numbered 9223372036854775808).inUnits ∧
      ∃ s, Store.ofJson (numbered 9223372036854775808) = .ok s ∧
        s.toJson = (numbered 9223372036854775808).narrowed := by
  have hheld : (numbered 9223372036854775808).Held :=
    held_numbered ⟨by decide, by decide⟩
  obtain ⟨hvalue, hstore, hreport⟩ := selection_writes_narrowed
  obtain ⟨-, hsame, hworth⟩ := hvalue _ hheld
  rw [eachInt_numbered] at hsame hworth
  obtain ⟨report, h⟩ := exists_report_numbered read_edge
  obtain ⟨data, hdata, -, hwritten⟩ := hreport _ _ _ _ _ _ _ _ parse_listed rfl h
  cases read_edge.symm.trans hdata
  exact ⟨report, h, hwritten, mt hsame.1 (by decide), hworth.2 (by decide), _, rfl,
    hstore _ _ hheld rfl⟩

/-- The largest integer that a document can hold is written back as 2⁶⁴, which is larger by one. -/
theorem top_not_written_back :
    ∃ report, (Task.run "select * from God" "data.json" [] true).report .text {}
        (.text "\x7b\"God\":[\x7b\"n\":18446744073709551615\x7d]\x7d") = .ok report ∧
      report.data = some (Json.object [⟨"God", .array [.object
        [⟨"n", .decimal ⟨false, 0x43F0000000000000, by decide⟩⟩]]⟩]).pretty ∧
      (Json.decimal ⟨false, 0x43F0000000000000, by decide⟩).inUnits ≠
        (Json.int 18446744073709551615).inUnits ∧
      (Value.ofJson (.int 18446744073709551615)).toJson =
        .decimal ⟨false, 0x43F0000000000000, by decide⟩ := by
  have hnearest : Json.narrowInt 18446744073709551615 =
      .decimal ⟨false, 0x43F0000000000000, by decide⟩ := by
    rw [Json.narrowInt_of_le (by decide)]
    exact congrArg Json.decimal (by decide +kernel)
  have htop : (Json.int 18446744073709551615).Held := ⟨by decide, by decide⟩
  obtain ⟨report, h⟩ := exists_report_numbered read_top
  obtain ⟨data, hdata, hwritten⟩ := data_of_report parse_listed rfl h
  cases read_top.symm.trans hdata
  refine ⟨report, h, ?_, ?_, ?_⟩
  · rw [hwritten, ← hnearest]
    rfl
  · rw [← hnearest]
    exact mt (Json.inUnits_narrowInt_eq_iff htop).1 (by decide)
  · rw [Value.toJson_ofJson htop, ← hnearest]
    rfl

end RecordQuery.CommandLine
