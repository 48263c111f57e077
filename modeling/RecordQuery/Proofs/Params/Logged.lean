import RecordQuery.Backend

namespace RecordQuery.Backend

variable {σ : Type}

def logged (b : Backend σ) : Backend (σ × List Command) where
  select q s := ((b.select q s.1).1, (b.select q s.1).2, s.2 ++ [.select q])
  delete q s := ((b.delete q s.1).1, (b.delete q s.1).2, s.2 ++ [.delete q])
  insert r ttl s := ((b.insert r ttl s.1).1, (b.insert r ttl s.1).2, s.2 ++ [.insert r ttl])
  update r s := ((b.update r s.1).1, (b.update r s.1).2, s.2 ++ [.update r])

theorem execute_logged (b : Backend σ) (s : Command) (state : σ) (log : List Command) :
    b.logged.execute s (state, log) =
      ((b.execute s state).1, (b.execute s state).2, log ++ [s]) := by
  cases s <;> rfl

end RecordQuery.Backend
