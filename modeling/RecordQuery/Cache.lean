import RecordQuery.Query
import RecordQuery.Settings.Basic

/-!
A cache of read queries by their exact texts. It holds statements as they are written, so every
lookup resolves names anew; failed queries are not held.
-/

namespace RecordQuery

structure Cache where
  limits : Limits
  /-- The held statements by their texts, the most recently asked for first. -/
  recent : List (String × Written)
  /-- The counters wrap round. -/
  hitCount : UInt64
  missCount : UInt64
  deriving Repr

namespace Cache

def ofLimits (limits : Limits) : Cache := ⟨limits, [], 0, 0⟩

def ofCapacity (capacity : Nat) : Cache := ofLimits { cacheCapacity := capacity }

def size (c : Cache) : Nat := c.recent.length

def hits (c : Cache) : Nat := c.hitCount.toNat

def misses (c : Cache) : Nat := c.missCount.toNat

def promote (c : Cache) (text : String) (w : Written) : Cache :=
  { c with
    recent := ((text, w) :: c.recent.filter fun e => e.1 ≠ text).take c.limits.cacheCapacity }

def written (c : Cache) (text : String) : Outcome Written × Cache :=
  match c.recent.lookup text with
  | some w => (.ok w, { c with hitCount := c.hitCount + 1 }.promote text w)
  | none =>
      let missed := { c with missCount := c.missCount + 1 }
      match Written.ofText c.limits text with
      | .ok w => (.ok w, missed.promote text w)
      | .error e => (.error e, missed)

def get (c : Cache) (naming : Naming) (text : String) : Outcome Query × Cache :=
  let (w, c) := c.written text
  (w.bind (Query.ofWritten naming), c)

def clear (c : Cache) : Cache := { c with recent := [] }

def summary (c : Cache) : String :=
  let config := Text.commaJoined
    (Setting.all.map fun s => s.key ++ ": " ++ toString (s.get c.limits))
  let stats := s!"hits: {c.hits}, misses: {c.misses}, entries: {c.size}"
  "QueryCache \x7b config: QueryConfig \x7b " ++ config ++ " \x7d, stats: CacheStats \x7b " ++
    stats ++ " \x7d \x7d"

end Cache

end RecordQuery
