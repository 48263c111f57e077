import Mathlib
import RecordQuery.Proofs.Cache.Requests

namespace RecordQuery

namespace Request

def isGet : Request → Bool
  | .get .. => true
  | _ => false

def isClear : Request → Bool
  | .clear => true
  | _ => false

def readable? (limits : Limits) : Request → Option String
  | .get naming text => if (Query.parse limits naming text).isOk then some text else none
  | _ => none

end Request

section Distinct

variable {α : Type} [DecidableEq α]

theorem filter_eraseDups (p : α → Bool) : ∀ l : List α, (l.filter p).eraseDups = l.eraseDups.filter p
  | [] => rfl
  | a :: l => by
      have ih := filter_eraseDups p (l.filter fun b => !b == a)
      rw [List.filter_filter] at ih
      rw [List.eraseDups_cons, List.filter_cons]
      split
      · next ha =>
          rw [List.eraseDups_cons, List.filter_cons_of_pos ha, ← ih, List.filter_filter]
          simp only [Bool.and_comm]
      · next ha =>
          rw [List.filter_cons_of_neg ha, ← ih]
          congr 1
          apply List.filter_congr
          intro b _
          by_cases hb : b = a
          · subst hb
            simpa using ha
          · simp [hb]
termination_by l => l.length
decreasing_by exact Nat.lt_succ_of_le (List.length_filter_le _ _)

theorem nodup_eraseDups : ∀ l : List α, l.eraseDups.Nodup
  | [] => List.nodup_nil
  | a :: l => by
      rw [List.eraseDups_cons, List.nodup_cons]
      constructor
      · intro ha
        simpa using List.mem_eraseDups.1 ha
      · exact nodup_eraseDups _
termination_by l => l.length
decreasing_by exact Nat.lt_succ_of_le (List.length_filter_le _ _)

theorem take_filter_ne {t : α} {l : List α} (h : l.Nodup) (n : Nat) :
    ((l.take (n + 1)).filter fun b => b ≠ t).take n = (l.filter fun b => b ≠ t).take n := by
  induction l generalizing n with
  | nil => rfl
  | cons a l ih =>
      obtain ⟨ha, hl⟩ := List.nodup_cons.1 h
      by_cases hat : a = t
      · subst hat
        have hkeep : ∀ m : List α, m.Sublist l → (m.filter fun b => b ≠ a) = m := by
          intro m hm
          apply List.filter_eq_self.2
          intro b hb
          have hne : b ≠ a := by
            rintro rfl
            exact ha (hm.subset hb)
          simpa using hne
        rw [List.take_succ_cons, List.filter_cons_of_neg (by simp), List.filter_cons_of_neg (by simp),
          hkeep _ (List.take_sublist n l), hkeep l (List.Sublist.refl l), List.take_take, Nat.min_self]
      · rw [List.take_succ_cons, List.filter_cons_of_pos (by simpa using hat),
          List.filter_cons_of_pos (by simpa using hat)]
        cases n with
        | zero => rfl
        | succ n => rw [List.take_succ_cons, List.take_succ_cons, ih hl]

theorem take_eraseDups_cons (t : α) (l : List α) (n : Nat) :
    (t :: (l.eraseDups.take n).filter fun b => b ≠ t).take n = (t :: l).eraseDups.take n := by
  cases n with
  | zero => rfl
  | succ n =>
      have hfilter : (l.filter fun b => !b == t) = l.filter fun b => b ≠ t := by
        apply List.filter_congr
        intro b _
        by_cases hb : b = t <;> simp [hb]
      rw [List.take_succ_cons, take_filter_ne (nodup_eraseDups l), List.eraseDups_cons, hfilter,
        filter_eraseDups, List.take_succ_cons]

end Distinct

namespace Cache

variable {c : Cache} {limits : Limits} {rs : List Request} {naming : Naming} {text : String}
  {w : Written}

def texts (c : Cache) : List String := c.recent.map Prod.fst

theorem texts_promote (c : Cache) (text : String) (w : Written) :
    (c.promote text w).texts =
      (text :: c.texts.filter fun t => t ≠ text).take c.limits.cacheCapacity := by
  simp only [texts, promote, List.map_take, List.map_cons, List.filter_map]
  rfl

theorem lookup_eq_none : c.recent.lookup text = none ↔ text ∉ c.texts := by
  rw [List.lookup_eq_none_iff]
  constructor
  · intro h hmem
    obtain ⟨e, he, rfl⟩ := List.mem_map.1 hmem
    simpa using h e he
  · intro h e he
    rw [bne_iff_ne]
    rintro rfl
    exact h (List.mem_map_of_mem he)

theorem exists_lookup (h : text ∈ c.texts) : ∃ w, c.recent.lookup text = some w := by
  apply Option.ne_none_iff_exists'.1
  intro hnone
  exact lookup_eq_none.1 hnone h

/-- The texts asked for since the last clearing, as far as they can be read, the latest first. -/
def requested (limits : Limits) (rs : List Request) : List String :=
  (rs.reverse.takeWhile fun r => !r.isClear).filterMap (Request.readable? limits)

theorem requested_concat (limits : Limits) (rs : List Request) (r : Request) :
    requested limits (rs ++ [r]) =
      if r.isClear then [] else (r.readable? limits).toList ++ requested limits rs := by
  have hreverse : (rs ++ [r]).reverse = r :: rs.reverse := by simp
  rw [requested, hreverse, List.takeWhile_cons]
  cases r.isClear with
  | true => rfl
  | false =>
      simp only [Bool.not_false, if_true, Bool.false_eq_true, if_false, List.filterMap_cons]
      cases r.readable? limits <;> rfl

theorem isOk_parse (limits : Limits) (naming : Naming) (text : String) :
    (Query.parse limits naming text).isOk = (Written.ofText limits text).isOk := by
  cases h : Written.ofText limits text with
  | ok w =>
      obtain ⟨q, hq⟩ := Query.exists_ofWritten h naming
      rw [Query.parse_of_ofText h, hq]
      rfl
  | error e =>
      rw [Query.parse_of_ofText_error h]
      rfl

namespace Truthful

theorem texts_get (hc : c.Truthful) (naming : Naming) (text : String) :
    (c.get naming text).2.texts =
      if (Query.parse c.limits naming text).isOk
      then (text :: c.texts.filter fun t => t ≠ text).take c.limits.cacheCapacity
      else c.texts := by
  rw [isOk_parse, get_eq]
  cases hheld : c.recent.lookup text with
  | some w =>
      rw [written_of_held hheld, hc.read_of_held hheld, texts_promote]
      rfl
  | none =>
      cases hread : Written.ofText c.limits text with
      | ok w =>
          rw [written_of_read hheld hread, texts_promote]
          rfl
      | error e =>
          rw [written_of_unread hheld hread]
          rfl

theorem recent_get_of_error (hc : c.Truthful) {e : QueryError}
    (h : (c.get naming text).1 = .error e) : (c.get naming text).2.recent = c.recent := by
  rw [hc.get_fst] at h
  cases hread : Written.ofText c.limits text with
  | ok w =>
      obtain ⟨q, hq⟩ := Query.exists_ofWritten hread naming
      rw [Query.parse_of_ofText hread, hq] at h
      cases h
  | error e' =>
      have hheld : c.recent.lookup text = none := by
        cases hheld : c.recent.lookup text with
        | none => rfl
        | some w =>
            rw [hc.read_of_held hheld] at hread
            cases hread
      rw [get_eq, written_of_unread hheld hread]

end Truthful

theorem counts_get (c : Cache) (naming : Naming) (text : String) :
    (c.get naming text).2.hitCount = (if text ∈ c.texts then c.hitCount + 1 else c.hitCount) ∧
    (c.get naming text).2.missCount =
      (if text ∈ c.texts then c.missCount else c.missCount + 1) := by
  rw [get_eq]
  by_cases hmem : text ∈ c.texts
  · obtain ⟨w, hheld⟩ := exists_lookup hmem
    rw [written_of_held hheld, if_pos hmem, if_pos hmem]
    exact ⟨rfl, rfl⟩
  · have hheld := lookup_eq_none.2 hmem
    rw [if_neg hmem, if_neg hmem]
    cases hread : Written.ofText c.limits text with
    | ok w =>
        rw [written_of_read hheld hread]
        exact ⟨rfl, rfl⟩
    | error e =>
        rw [written_of_unread hheld hread]
        exact ⟨rfl, rfl⟩

def served (limits : Limits) (rs : List Request) : Cache := (ofLimits limits).after rs

theorem served_concat (limits : Limits) (rs : List Request) (r : Request) :
    served limits (rs ++ [r]) = ((served limits rs).answer r).2 :=
  after_concat _ rs r

theorem truthful_served (limits : Limits) (rs : List Request) :
    (served limits rs).Truthful ∧ (served limits rs).limits = limits :=
  (Truthful.ofLimits limits).after rs

theorem texts_served (limits : Limits) (rs : List Request) :
    (served limits rs).texts = (requested limits rs).eraseDups.take limits.cacheCapacity := by
  induction rs using List.reverseRecOn with
  | nil => exact List.take_nil.symm
  | append_singleton rs r ih =>
      obtain ⟨htruthful, hlimits⟩ := truthful_served limits rs
      rw [served_concat, requested_concat]
      cases r with
      | clear => exact List.take_nil.symm
      | stats => exact ih
      | get naming text =>
          have hstep := htruthful.texts_get naming text
          rw [hlimits, ih] at hstep
          -- a text that cannot be read neither moves nor enters, and is not requested either
          refine hstep.trans ?_
          simp only [Request.isClear, Request.readable?, Bool.false_eq_true, if_false]
          split
          · exact take_eraseDups_cons text _ _
          · rfl

theorem size_served_le (limits : Limits) (rs : List Request) :
    (served limits rs).size ≤ limits.cacheCapacity := by
  have hsize : (served limits rs).size = (served limits rs).texts.length := by
    simp [size, texts]
  rw [hsize, texts_served]
  exact List.length_take_le _ _

theorem counts_served (limits : Limits) (rs : List Request) :
    ∃ hits misses, hits + misses = rs.countP Request.isGet ∧
      (served limits rs).hitCount = .ofNat hits ∧ (served limits rs).missCount = .ofNat misses := by
  induction rs using List.reverseRecOn with
  | nil => exact ⟨0, 0, rfl, rfl, rfl⟩
  | append_singleton rs r ih =>
      obtain ⟨hits, misses, hsum, hhits, hmisses⟩ := ih
      rw [served_concat, List.countP_append, ← hsum]
      cases r with
      | clear | stats => exact ⟨hits, misses, rfl, hhits, hmisses⟩
      | get naming text =>
          obtain ⟨hnewhits, hnewmisses⟩ := (served limits rs).counts_get naming text
          have hone : [Request.get naming text].countP Request.isGet = 1 := rfl
          simp only [answer, hnewhits, hnewmisses, hhits, hmisses, hone]
          by_cases hmem : text ∈ (served limits rs).texts
          · refine ⟨hits + 1, misses, Nat.add_right_comm _ _ _, ?_, ?_⟩
            · rw [if_pos hmem, UInt64.ofNat_add]
              rfl
            · rw [if_pos hmem]
          · refine ⟨hits, misses + 1, rfl, ?_, ?_⟩
            · rw [if_neg hmem]
            · rw [if_neg hmem, UInt64.ofNat_add]
              rfl

theorem sum_served (limits : Limits) (rs : List Request) :
    (served limits rs).hitCount + (served limits rs).missCount =
      .ofNat (rs.countP Request.isGet) := by
  obtain ⟨hits, misses, hsum, hhits, hmisses⟩ := counts_served limits rs
  rw [hhits, hmisses, ← hsum, UInt64.ofNat_add]

theorem sum_served_of_lt (h : rs.countP Request.isGet < UInt64.size) :
    (served limits rs).hits + (served limits rs).misses = rs.countP Request.isGet := by
  obtain ⟨found, read, hsum, hhits, hmisses⟩ := counts_served limits rs
  rw [hits, misses, hhits, hmisses, UInt64.toNat_ofNat_of_lt' (by omega),
    UInt64.toNat_ofNat_of_lt' (by omega), hsum]

theorem texts_served_of_no_room (h : limits.cacheCapacity = 0) (rs : List Request) :
    (served limits rs).texts = [] := by
  rw [texts_served, h, List.take_zero]

theorem hits_served_of_no_room (h : limits.cacheCapacity = 0) (rs : List Request) :
    (served limits rs).hitCount = 0 := by
  induction rs using List.reverseRecOn with
  | nil => rfl
  | append_singleton rs r ih =>
      rw [served_concat]
      cases r with
      | clear | stats => exact ih
      | get naming text =>
          have hhits := ((served limits rs).counts_get naming text).1
          rw [texts_served_of_no_room h, if_neg List.not_mem_nil, ih] at hhits
          exact hhits

/-- A cache holds the most recent of the distinct texts that were asked for and could be read since
it was last cleared, in the order of their last requests, as many as it has room for. A query is
counted as a hit exactly when its text is among them, and as a miss else; one that fails leaves what
is held as it is. The counters wrap round, and add up to the number of queries below that. -/
theorem holds_most_recent (limits : Limits) (rs : List Request) :
    (served limits rs).texts = (requested limits rs).eraseDups.take limits.cacheCapacity ∧
    (served limits rs).size ≤ limits.cacheCapacity ∧
    (served limits rs).hitCount + (served limits rs).missCount =
      .ofNat (rs.countP Request.isGet) ∧
    (rs.countP Request.isGet < UInt64.size →
      (served limits rs).hits + (served limits rs).misses = rs.countP Request.isGet) ∧
    (∀ naming text,
      ((served limits rs).get naming text).2.hitCount = (served limits rs).hitCount +
        (if text ∈ (requested limits rs).eraseDups.take limits.cacheCapacity then 1 else 0) ∧
      ((served limits rs).get naming text).2.missCount = (served limits rs).missCount +
        (if text ∈ (requested limits rs).eraseDups.take limits.cacheCapacity then 0 else 1) ∧
      ∀ e, ((served limits rs).get naming text).1 = .error e →
        ((served limits rs).get naming text).2.recent = (served limits rs).recent) ∧
    (limits.cacheCapacity = 0 →
      (served limits rs).recent = [] ∧ (served limits rs).hitCount = 0) := by
  refine ⟨texts_served limits rs, size_served_le limits rs, sum_served limits rs, sum_served_of_lt,
    ?_, ?_⟩
  · intro naming text
    rw [← texts_served]
    obtain ⟨hhits, hmisses⟩ := (served limits rs).counts_get naming text
    refine ⟨?_, ?_, ?_⟩
    · rw [hhits]
      split
      · rfl
      · exact (UInt64.add_zero _).symm
    · rw [hmisses]
      split
      · exact (UInt64.add_zero _).symm
      · rfl
    · intro e he
      exact (truthful_served limits rs).1.recent_get_of_error he
  · intro hzero
    exact ⟨List.map_eq_nil_iff.1 (texts_served_of_no_room hzero rs),
      hits_served_of_no_room hzero rs⟩

def revisited : List Request :=
  [.get .identity "delete from t", .clear, .get .identity "delete from a",
    .get .identity "delete from b", .get .identity "delete from a", .get .identity "drop", .stats,
    .get .identity "delete from c"]

theorem requested_revisited : requested { cacheCapacity := 2 } revisited =
    ["delete from c", "delete from a", "delete from b", "delete from a"] := by
  decide +kernel

theorem revisited_held :
    (served { cacheCapacity := 2 } revisited).texts = ["delete from c", "delete from a"] ∧
    (served { cacheCapacity := 2 } revisited).hits +
      (served { cacheCapacity := 2 } revisited).misses = 6 ∧
    ((served { cacheCapacity := 2 } revisited).get .identity "delete from b").2.hitCount =
      (served { cacheCapacity := 2 } revisited).hitCount ∧
    ((served { cacheCapacity := 2 } revisited).get .identity "drop").2.recent =
      (served { cacheCapacity := 2 } revisited).recent ∧
    (served { cacheCapacity := 0 } revisited).recent = [] := by
  obtain ⟨htexts, -, -, hcounts, hget, -⟩ := holds_most_recent { cacheCapacity := 2 } revisited
  rw [requested_revisited] at htexts hget
  refine ⟨htexts.trans (by decide), (hcounts (by decide)).trans (by decide), ?_, ?_, ?_⟩
  · rw [(hget .identity "delete from b").1, if_neg (by decide), UInt64.add_zero]
  · have hdrop : ((served { cacheCapacity := 2 } revisited).get .identity "drop").1 =
        .error (.unknownCommand "drop") := by
      obtain ⟨htruthful, hlimits⟩ := truthful_served { cacheCapacity := 2 } revisited
      rw [htruthful.get_fst, hlimits]
      cbv
    exact (hget .identity "drop").2.2 _ hdrop
  · exact ((holds_most_recent { cacheCapacity := 0 } revisited).2.2.2.2.2 rfl).1

end Cache

end RecordQuery
