import RecordQuery.Proofs.Grammar.Spelling
import RecordQuery.Store.Change

namespace RecordQuery

def Command.entity : Command → String
  | .select q => q.entity
  | .delete q => q.entity
  | .insert r _ => r.entity
  | .update r => r.entity

def Command.record? : Command → Option Record
  | .insert r _ | .update r => some r
  | .select _ | .delete _ => none

namespace Store

variable {s s' : Store} {c : Command} {r : Record} {e : QueryError}

inductive Step : Command → Store → Store → Prop
  | read (q : Selection) (s : Store) : Step (.select q) s s
  | absent {q : Deletion} {s : Store} (h : s.entries? q.entity = none) : Step (.delete q) s s
  | erased {q : Deletion} {s : Store} {es : List Entry} {hs : List Bool}
      (hentries : s.entries? q.entity = some es) (hhits : hits q.condition es = .ok hs) :
      Step (.delete q) s (s.withEntries q.entity (erase q.fields hs es))
  | inserted {r : Record} (ttl : Option Ttl) (s : Store) (hclosed : r.params = []) :
      Step (.insert r ttl) s (s.withEntries r.entity (s.entries r.entity ++ [⟨r, ttl⟩]))
  | updated {r : Record} {key : Column} {columns : List Column} (s : Store)
      (hclosed : r.params = []) (hkey : r.columns = key :: columns) :
      Step (.update r) s (s.withEntries r.entity (replace key r (s.entries r.entity)))

theorem closed_of_rejectParams (h : rejectParams r = .ok ()) : r.params = [] := by
  unfold rejectParams at h
  split at h
  · assumption
  · cases h

/-- What a call may come to: an error and the store as it was, or a step. -/
inductive Answered {α : Type} (c : Command) (s : Store) : Outcome α × Store → Prop
  | refused (e : QueryError) : Answered c s (.error e, s)
  | stepped (a : α) {t : Store} (hstep : Step c s t) : Answered c s (.ok a, t)

namespace Answered

variable {α β : Type} {a : α} {answer : Outcome α × Store}

theorem snd_of_error (h : Answered c s answer) (herror : answer.1 = .error e) : answer.2 = s := by
  cases h with
  | refused => rfl
  | stepped => cases herror

theorem step_of_ok (h : Answered c s answer) (hok : answer.1 = .ok a) : Step c s answer.2 := by
  cases h with
  | refused => cases hok
  | stepped _ hstep => exact hstep

theorem mapOutcome (h : Answered c s answer) (f : α → β) :
    Answered c s (mapOutcome f answer) := by
  cases h with
  | refused e => exact .refused e
  | stepped a hstep => exact .stepped (f a) hstep

end Answered

theorem answered_select (q : Selection) (s : Store) :
    Answered (.select q) s (s.select q, s) := by
  cases s.select q with
  | error e => exact .refused e
  | ok rows => exact .stepped rows (.read q s)

theorem answered_delete (q : Deletion) (s : Store) : Answered (.delete q) s (s.delete q) := by
  unfold delete
  split
  · next habsent => exact .stepped () (.absent habsent)
  · next es hentries =>
      split
      · next e _ => exact .refused e
      · next hs hhits => exact .stepped () (.erased hentries hhits)

theorem answered_insert (r : Record) (ttl : Option Ttl) (s : Store) :
    Answered (.insert r ttl) s (s.insert r ttl) := by
  unfold insert
  split
  · next e _ => exact .refused e
  · next hclosed => exact .stepped r (.inserted ttl s (closed_of_rejectParams hclosed))

theorem answered_update (r : Record) (s : Store) : Answered (.update r) s (s.update r) := by
  unfold update
  split
  · next e _ => exact .refused e
  · next hclosed =>
      split
      · exact .refused _
      · next key _ hkey => exact .stepped r (.updated s (closed_of_rejectParams hclosed) hkey)

theorem answered_execute (c : Command) (s : Store) : Answered c s (backend.execute c s) := by
  cases c with
  | select q => exact answered_select q s
  | delete q => exact (answered_delete q s).mapOutcome _
  | insert r ttl => exact (answered_insert r ttl s).mapOutcome _
  | update r => exact (answered_update r s).mapOutcome _

theorem step_or_same (c : Command) (s : Store) :
    Step c s (backend.execute c s).2 ∨ (backend.execute c s).2 = s := by
  have hanswered := answered_execute c s
  cases h : (backend.execute c s).1 with
  | ok rows => exact .inl (hanswered.step_of_ok h)
  | error e => exact .inr (hanswered.snd_of_error h)

theorem Step.entries_of_ne {other : String} (h : Step c s s') (hother : c.entity ≠ other) :
    s'.entries other = s.entries other := by
  cases h with
  | read | absent => rfl
  | erased | inserted | updated => exact entries_withEntries_of_ne s _ hother

end Store

end RecordQuery
