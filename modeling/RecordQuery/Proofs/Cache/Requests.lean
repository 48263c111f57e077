import RecordQuery.Cache
import RecordQuery.Proofs.Statement.Resolve

namespace RecordQuery

inductive Request where
  | get (naming : Naming) (text : String)
  | clear
  | stats

inductive Answer where
  | query (outcome : Outcome Query)
  | cleared
  | stats (hits misses entries : Nat)

def Request.outcome? (limits : Limits) : Request → Option (Outcome Query)
  | .get naming text => some (Query.parse limits naming text)
  | .clear | .stats => none

def Answer.outcome? : Answer → Option (Outcome Query)
  | .query outcome => some outcome
  | .cleared | .stats .. => none

namespace Cache

variable {c : Cache} {text : String} {w : Written}

def answer (c : Cache) : Request → Answer × Cache
  | .get naming text => (.query (c.get naming text).1, (c.get naming text).2)
  | .clear => (.cleared, c.clear)
  | .stats => (.stats c.hits c.misses c.size, c)

def after (c : Cache) (rs : List Request) : Cache := rs.foldl (fun c r => (c.answer r).2) c

def answers (c : Cache) : List Request → List Answer
  | [] => []
  | r :: rs => (c.answer r).1 :: (c.answer r).2.answers rs

theorem after_concat (c : Cache) (rs : List Request) (r : Request) :
    c.after (rs ++ [r]) = ((c.after rs).answer r).2 := by
  simp [after]

theorem get_eq (c : Cache) (naming : Naming) (text : String) :
    c.get naming text = ((c.written text).1.bind (Query.ofWritten naming), (c.written text).2) :=
  rfl

section Lookup

theorem written_of_held (h : c.recent.lookup text = some w) :
    c.written text = (.ok w, { c with hitCount := c.hitCount + 1 }.promote text w) := by
  simp only [written, h]

theorem written_of_read (hnone : c.recent.lookup text = none)
    (h : Written.ofText c.limits text = .ok w) :
    c.written text = (.ok w, { c with missCount := c.missCount + 1 }.promote text w) := by
  simp only [written, hnone, h]

theorem written_of_unread {e : QueryError} (hnone : c.recent.lookup text = none)
    (h : Written.ofText c.limits text = .error e) :
    c.written text = (.error e, { c with missCount := c.missCount + 1 }) := by
  simp only [written, hnone, h]

end Lookup

/-- Every held statement is what its text is read as. -/
def Truthful (c : Cache) : Prop := ∀ e ∈ c.recent, Written.ofText c.limits e.1 = .ok e.2

namespace Truthful

theorem ofLimits (limits : Limits) : (ofLimits limits).Truthful := by
  intro e he
  cases he

theorem promote (hc : c.Truthful) (h : Written.ofText c.limits text = .ok w) :
    (c.promote text w).Truthful := by
  intro e he
  rcases List.mem_cons.1 (List.mem_of_mem_take he) with rfl | he
  · exact h
  · exact hc e (List.mem_filter.1 he).1

theorem counted (hc : c.Truthful) (hits misses : UInt64) :
    Truthful { c with hitCount := hits, missCount := misses } := by
  intro e he
  exact hc e he

theorem read_of_held (hc : c.Truthful) (h : c.recent.lookup text = some w) :
    Written.ofText c.limits text = .ok w := by
  obtain ⟨before, behind, hrecent, -⟩ := List.lookup_eq_some_iff.1 h
  apply hc (text, w)
  rw [hrecent]
  exact List.mem_append_cons_self

theorem written_fst (hc : c.Truthful) (text : String) :
    (c.written text).1 = Written.ofText c.limits text := by
  cases hheld : c.recent.lookup text with
  | some w =>
      rw [written_of_held hheld, hc.read_of_held hheld]
  | none =>
      cases hread : Written.ofText c.limits text with
      | ok w => rw [written_of_read hheld hread]
      | error e => rw [written_of_unread hheld hread]

theorem written_snd (hc : c.Truthful) (text : String) :
    (c.written text).2.Truthful ∧ (c.written text).2.limits = c.limits := by
  cases hheld : c.recent.lookup text with
  | some w =>
      rw [written_of_held hheld]
      exact ⟨(hc.counted (c.hitCount + 1) c.missCount).promote (hc.read_of_held hheld), rfl⟩
  | none =>
      cases hread : Written.ofText c.limits text with
      | ok w =>
          rw [written_of_read hheld hread]
          exact ⟨(hc.counted c.hitCount (c.missCount + 1)).promote hread, rfl⟩
      | error e =>
          rw [written_of_unread hheld hread]
          exact ⟨hc.counted c.hitCount (c.missCount + 1), rfl⟩

theorem get_fst (hc : c.Truthful) (naming : Naming) (text : String) :
    (c.get naming text).1 = Query.parse c.limits naming text := by
  rw [get_eq, hc.written_fst]
  rfl

theorem answer_fst (hc : c.Truthful) (r : Request) :
    (c.answer r).1.outcome? = r.outcome? c.limits := by
  cases r with
  | get naming text => exact congrArg some (hc.get_fst naming text)
  | clear | stats => rfl

theorem answer_snd (hc : c.Truthful) (r : Request) :
    (c.answer r).2.Truthful ∧ (c.answer r).2.limits = c.limits := by
  cases r with
  | get naming text => exact hc.written_snd text
  | clear =>
      constructor
      · intro e he
        cases he
      · rfl
  | stats => exact ⟨hc, rfl⟩

theorem after (hc : c.Truthful) (rs : List Request) :
    (c.after rs).Truthful ∧ (c.after rs).limits = c.limits := by
  induction rs generalizing c with
  | nil => exact ⟨hc, rfl⟩
  | cons r rs ih =>
      obtain ⟨hstep, hlimits⟩ := hc.answer_snd r
      obtain ⟨hrest, hsame⟩ := ih hstep
      exact ⟨hrest, hsame.trans hlimits⟩

theorem answers (hc : c.Truthful) (rs : List Request) :
    (c.answers rs).filterMap Answer.outcome? = rs.filterMap (Request.outcome? c.limits) := by
  induction rs generalizing c with
  | nil => rfl
  | cons r rs ih =>
      obtain ⟨hstep, hlimits⟩ := hc.answer_snd r
      have hrest := ih hstep
      rw [hlimits] at hrest
      rw [Cache.answers, List.filterMap_cons, List.filterMap_cons, hc.answer_fst, hrest]

end Truthful

/-- A run of requests answers its queries, in order, as they are read without a cache. Neither what
was asked before, under whatever names, nor what was dropped or cleared shows in the answer to the
next query, be it a query or an error. -/
theorem queries_answered_as_read (limits : Limits) (rs : List Request) :
    ((ofLimits limits).answers rs).filterMap Answer.outcome? =
      rs.filterMap (Request.outcome? limits) ∧
    ∀ naming text,
      (((ofLimits limits).after rs).get naming text).1 = Query.parse limits naming text := by
  have hempty := Truthful.ofLimits limits
  constructor
  · exact hempty.answers rs
  · intro naming text
    obtain ⟨htruthful, hlimits⟩ := hempty.after rs
    rw [htruthful.get_fst, hlimits]
    rfl

end Cache

end RecordQuery
