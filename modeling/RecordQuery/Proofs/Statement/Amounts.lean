import RecordQuery.Proofs.Statement.Recording
import RecordQuery.Proofs.Token.Following

namespace RecordQuery

open Token (Spells Writes)

namespace TimeUnit

def names (u : TimeUnit) : List String := [u.name, u.name ++ "s"]

variable {u : TimeUnit} {unit : String}

theorem ofName?_of_mem (h : unit ∈ u.names) : ofName? unit = some u := by
  simp only [names, List.mem_cons, List.not_mem_nil, or_false] at h
  rcases h with rfl | rfl <;> cases u <;> decide

theorem isWord_of_mem (h : unit ∈ u.names) : Token.IsWord unit := by
  simp only [names, List.mem_cons, List.not_mem_nil, or_false] at h
  rcases h with rfl | rfl <;> cases u <;> decide

end TimeUnit

namespace Ttl

variable {n : Nat} {u : TimeUnit}

/-- The unit is a second or longer, and the seconds of the amount do not fit 64 bits. -/
def Overflows (n : Nat) (u : TimeUnit) : Prop :=
  TimeUnit.nanoseconds .second ≤ u.nanoseconds ∧
    2 ^ 64 - 1 < n * (u.nanoseconds / TimeUnit.nanoseconds .second)

instance (n : Nat) (u : TimeUnit) : Decidable (Overflows n u) :=
  inferInstanceAs (Decidable (_ ∧ _))

theorem seconds_lt_iff (hn : n < Written.countBound) :
    n * u.nanoseconds / TimeUnit.nanoseconds .second < secondLimit ↔ ¬ Overflows n u := by
  unfold Overflows Written.countBound secondLimit at *
  cases u <;> simp only [TimeUnit.nanoseconds] <;> omega

theorem ofAmount?_of_overflows (hn : n < Written.countBound) (h : Overflows n u) :
    ofAmount? n u = none :=
  if_neg fun hlt => (seconds_lt_iff hn).1 hlt h

theorem ofAmount?_of_not_overflows (hn : n < Written.countBound) (h : ¬ Overflows n u) :
    ofAmount? n u = some ⟨n * u.nanoseconds⟩ :=
  if_pos ((seconds_lt_iff hn).2 h)

theorem text_eq (t : Ttl) : t.text = toString t.amount ++ " " ++ t.measure.word t.amount := by
  simp [text, TimeUnit.word, String.append_assoc]

end Ttl

namespace Written

variable {limits : Limits} {ts : List Token} {head tail unit : String} {r : Record} {n : Nat}
  {u : TimeUnit}

theorem readLastTtl_of_amount (hn : n < countBound) (hu : TimeUnit.ofName? unit = some u)
    (hs : Spells [.int (Int64.ofNat n), .word unit] ts []) :
    readLastTtl ts = match Ttl.ofAmount? n u with
      | none => .error (.malformed .ttlOverflow "")
      | some t => .ok (some t) := by
  have hlt : n < 2 ^ 64 := Nat.lt_trans hn (by decide)
  have htoNat : (UInt64.ofNat n).toNat = n := UInt64.toNat_ofNat_of_lt' hlt
  have hne : ts ≠ [] := by
    rintro rfl
    rcases hs with ⟨_, _, h, -⟩
    cases h
  obtain ⟨mid, hamount, hunit⟩ := hs.uncons
  rw [← htoNat] at hamount
  obtain ⟨_, hcount⟩ := gives_readCount_ofNat "ttl" (by rwa [htoNat]) hamount
  obtain ⟨_, hword⟩ := (gives_expectWord "ttl unit").2 hunit
  rw [readLastTtl, if_neg hne, readTtl]
  simp only [hcount, hword, hu, htoNat, Outcome.ok_bind]
  cases Ttl.ofAmount? n u <;> rfl

theorem readLastTtl_eq_none (h : readLastTtl ts = .ok none) : ts = [] := by
  unfold readLastTtl at h
  split at h
  · assumption
  · obtain ⟨_, -, h⟩ := Outcome.bind_eq_ok.1 h
    obtain ⟨_, -, h⟩ := Outcome.bind_eq_ok.1 h
    cases h

theorem body_of_ofText (h : ofText limits head = .ok (.insert r none)) :
    ∃ cs ls, head.toList = Verb.insert.keyword.toList ++ cs ∧ Body limits ls r.columns ∧
      Writes (.word "insert" :: .word r.entity :: ls) head.toList := by
  unfold ofText at h
  split at h
  · cases h
  · next verb hverb =>
      obtain ⟨ts, hts, h⟩ := Outcome.bind_eq_ok.1 h
      obtain rfl : Verb.insert = verb := verb_of_readStatement h
      obtain ⟨cs, hcs⟩ := exists_toList_of_verb hverb
      obtain ⟨⟨_, rest₁, hlt₁⟩, hkeyword, h⟩ := Outcome.bind_eq_ok.1 h
      obtain ⟨⟨entity, rest₂, hlt₂⟩, hentity, h⟩ := Outcome.bind_eq_ok.1 h
      obtain ⟨⟨columns, rest₃, hlt₃⟩, hbody, h⟩ := Outcome.bind_eq_ok.1 h
      obtain ⟨ttl, httl, h⟩ := Outcome.bind_eq_ok.1 h
      cases h
      obtain ⟨ls, hls, hs⟩ := gives_readBody_iff.1 ⟨hlt₃, hbody⟩
      have hs₁ := gives_expectKeyword.1 ⟨hlt₁, hkeyword⟩
      have hs₂ := gives_readEntity.1 ⟨hlt₂, hentity⟩
      obtain rfl := readLastTtl_eq_none httl
      have hlexemes := (hs₁.append (hs₂.append hs)).map_lexeme
      have hwrites := Token.writes_of_ofChars hts
      rw [hlexemes] at hwrites
      refine ⟨cs, ls, hcs, hls, ?_⟩
      simpa using hwrites

theorem ofText_append (h : ofText limits head = .ok (.insert r none)) {ls : List Lexeme}
    (htail : Writes ls tail.toList) :
    ∃ rest, Spells ls rest [] ∧
      ofText limits (head ++ " " ++ tail) = (readLastTtl rest).map (.insert r ·) := by
  obtain ⟨cs, body, hcs, hbody, hwrites⟩ := body_of_ofText h
  have htext : (head ++ " " ++ tail).toList = head.toList ++ ' ' :: tail.toList := by simp
  have hverb : (head ++ " " ++ tail).toList =
      Verb.insert.keyword.toList ++ (cs ++ ' ' :: tail.toList) := by
    rw [htext, hcs, List.append_assoc]
  have hall := hwrites.append htail.blank Token.breaks_blank
  rw [← htext] at hall
  obtain ⟨ts, hs, hread⟩ := @exists_spells_ofText limits _ _ _ _ hverb hall
  obtain ⟨ts₁, hkeyword, hs⟩ := Spells.uncons hs
  obtain ⟨ts₂, hentity, hs⟩ := Spells.uncons hs
  obtain ⟨rest, hs, hlast⟩ := hs.split
  obtain ⟨_, hkeyword⟩ := gives_expectKeyword.2 hkeyword
  obtain ⟨_, hentity⟩ := (@gives_readEntity ts₁ ts₂ .insert r.entity).2 hentity
  obtain ⟨_, hbody⟩ := gives_readBody_iff.2 ⟨body, hbody, hs⟩
  refine ⟨rest, hlast, ?_⟩
  rw [hread, readStatement, readInsert]
  simp only [hkeyword, hentity, hbody, Outcome.ok_bind]
  cases readLastTtl rest <;> rfl

end Written

namespace Query

open Written (countBound)

variable {limits : Limits} {naming : Naming} {head tail : String} {r : Record} {params : Params}

theorem written_of_parse (h : parse limits naming head = .ok ⟨.insert r none, params⟩) :
    ∃ s, Written.ofText limits head = .ok (.insert s none) ∧ r = s.rename naming ∧
      params = Params.empty.declareAll s.params := by
  obtain ⟨w, hw, h⟩ := Outcome.bind_eq_ok.1 h
  obtain ⟨command, hcommand, h⟩ := Outcome.map_eq_ok.1 h
  cases h
  cases w with
  | insert s ttl =>
      cases hcommand
      exact ⟨s, hw, rfl, rfl⟩
  | update s => cases hcommand
  | select q | delete q =>
      obtain ⟨_, -, h⟩ := Outcome.bind_eq_ok.1 hcommand
      cases h

theorem parse_append (h : parse limits naming head = .ok ⟨.insert r none, params⟩)
    {ls : List Lexeme} (htail : Writes ls tail.toList) :
    ∃ rest, Spells ls rest [] ∧ parse limits naming (head ++ " " ++ tail) =
      (Written.readLastTtl rest).map fun ttl => ⟨.insert r ttl, params⟩ := by
  obtain ⟨s, hs, rfl, rfl⟩ := written_of_parse h
  obtain ⟨rest, hrest, htext⟩ := Written.ofText_append hs htail
  refine ⟨rest, hrest, ?_⟩
  rw [parse, htext]
  cases Written.readLastTtl rest <;> rfl

theorem parse_amount (h : parse limits naming head = .ok ⟨.insert r none, params⟩) {n : Nat}
    (hn : n < countBound) {u : TimeUnit} {unit : String} (hunit : unit ∈ u.names) :
    parse limits naming (head ++ " " ++ (toString n ++ " " ++ unit)) =
      match Ttl.ofAmount? n u with
      | none => .error (.malformed .ttlOverflow "")
      | some t => .ok ⟨.insert r (some t), params⟩ := by
  have htext : (toString n ++ " " ++ unit).toList = (toString n).toList ++ ' ' :: unit.toList := by
    simp
  have hwrites : Writes [.int (Int64.ofNat n), .word unit] (toString n ++ " " ++ unit).toList := by
    rw [htext]
    exact (Written.writes_count hn).append (Writes.word (TimeUnit.isWord_of_mem hunit)).blank
      Token.breaks_blank
  obtain ⟨rest, hrest, hparse⟩ := parse_append h hwrites
  rw [hparse, Written.readLastTtl_of_amount hn (TimeUnit.ofName?_of_mem hunit) hrest]
  cases Ttl.ofAmount? n u <;> rfl

theorem parse_ttl_text (h : parse limits naming head = .ok ⟨.insert r none, params⟩) {t : Ttl}
    (ht : t.Legible) :
    parse limits naming (head ++ " " ++ t.text) = .ok ⟨.insert r (some t), params⟩ := by
  have hunit : t.measure.word t.amount ∈ t.measure.names := by
    unfold TimeUnit.word TimeUnit.names
    split <;> simp
  rw [t.text_eq, parse_amount h ht.amount hunit, ht.ofAmount?_amount]

/-- Behind an insertion, an amount of a unit is a time to live of exactly so many nanoseconds, or it
fails because its seconds are too many. The text of such a time to live has an amount that is not
above the one it was read with, in the largest unit that measures it, and behind any insertion it is
read as the same time to live. -/
theorem time_to_live_exact (h : parse limits naming head = .ok ⟨.insert r none, params⟩) {n : Nat}
    (hn : n < 2 ^ 63) {u : TimeUnit} {unit : String} (hunit : unit ∈ u.names) :
    (Ttl.Overflows n u → parse limits naming (head ++ " " ++ (toString n ++ " " ++ unit)) =
      .error (.malformed .ttlOverflow "")) ∧
    (¬ Ttl.Overflows n u → ∃ (t : Ttl) (m : Nat) (v : TimeUnit),
      parse limits naming (head ++ " " ++ (toString n ++ " " ++ unit)) =
        .ok ⟨.insert r (some t), params⟩ ∧
      t.nanoseconds = n * u.nanoseconds ∧
      t.text = toString m ++ " " ++ v.word m ∧ m ≤ n ∧ m * v.nanoseconds = t.nanoseconds ∧
      (∀ w : TimeUnit, w.nanoseconds ∣ t.nanoseconds → w.nanoseconds ≤ v.nanoseconds) ∧
      ¬ Ttl.Overflows m v ∧
      ∀ limits' naming' head' r' params',
        parse limits' naming' head' = .ok ⟨.insert r' none, params'⟩ →
        parse limits' naming' (head' ++ " " ++ t.text) = .ok ⟨.insert r' (some t), params'⟩) := by
  have hparse := parse_amount h hn hunit
  constructor
  · intro hover
    rw [hparse, Ttl.ofAmount?_of_overflows hn hover]
  · intro hover
    have hread := Ttl.ofAmount?_of_not_overflows hn hover
    rw [hread] at hparse
    have hlegible := Ttl.legible_of_ofAmount? hn hread
    refine ⟨_, _, _, hparse, rfl, Ttl.text_eq _, Ttl.amount_le hread, Ttl.amount_mul_measure _,
      ?_, ?_, ?_⟩
    · intro w hw
      exact Ttl.nanoseconds_le_measure (Nat.mod_eq_zero_of_dvd hw)
    · refine (Ttl.seconds_lt_iff hlegible.amount).1 ?_
      rw [Ttl.amount_mul_measure]
      exact hlegible.seconds
    · intro limits' naming' head' r' params' h'
      exact parse_ttl_text h' hlegible

def named : Query := ⟨.insert ⟨"God", [⟨"name", .param "who"⟩]⟩ none, ⟨["who"], []⟩⟩

theorem parse_named : parse {} .identity "insert God (name = @who)" = .ok named := by
  unfold named
  cbv

theorem named_with_time_to_live :
    (∃ t : Ttl, parse {} .identity ("insert God (name = @who)" ++ " " ++ (toString 120 ++ " " ++
        "minutes")) = .ok ⟨.insert ⟨"God", [⟨"name", .param "who"⟩]⟩ (some t), ⟨["who"], []⟩⟩ ∧
      t = ⟨7_200_000_000_000⟩ ∧ parse {} .identity ("insert God (name = @who)" ++ " " ++ t.text) =
        .ok ⟨.insert ⟨"God", [⟨"name", .param "who"⟩]⟩ (some t), ⟨["who"], []⟩⟩) ∧
    parse {} .identity ("insert God (name = @who)" ++ " " ++ (toString 9_223_372_036_854_775_807 ++
      " " ++ "day")) = .error (.malformed .ttlOverflow "") := by
  constructor
  · have hfits : ¬ Ttl.Overflows 120 .minute := by decide
    have hminutes : "minutes" ∈ TimeUnit.names .minute := by decide
    obtain ⟨t, m, v, hparse, hns, -, -, -, -, -, hagain⟩ :=
      (time_to_live_exact parse_named (by decide) hminutes).2 hfits
    exact ⟨t, hparse, congrArg Ttl.mk hns, hagain _ _ _ _ _ parse_named⟩
  · have hover : Ttl.Overflows 9_223_372_036_854_775_807 .day := by decide
    have hday : "day" ∈ TimeUnit.names .day := by decide
    exact (time_to_live_exact parse_named (by decide) hday).1 hover

end Query

end RecordQuery
