import RecordQuery.Proofs.Grammar.Record
import RecordQuery.Proofs.Statement.Writing

namespace RecordQuery

open Token (IsWord Spells Writes)

namespace TimeUnit

theorem nanoseconds_pos (u : TimeUnit) : 0 < u.nanoseconds := by
  cases u <;> decide

theorem pairwise_all : all.Pairwise fun u v => v.nanoseconds ≤ u.nanoseconds := by decide

def word (u : TimeUnit) (amount : Nat) : String := u.name ++ (if amount = 1 then "" else "s")

theorem ofName?_word (u : TimeUnit) (amount : Nat) : ofName? (u.word amount) = some u := by
  unfold word
  split <;> cases u <;> decide

theorem isWord_word (u : TimeUnit) (amount : Nat) : IsWord (u.word amount) := by
  unfold word
  split <;> cases u <;> decide

end TimeUnit

namespace Ttl

variable {t : Ttl} {u : TimeUnit} {n : Nat}

theorem nanoseconds_le_measure (h : t.nanoseconds % u.nanoseconds = 0) :
    u.nanoseconds ≤ t.measure.nanoseconds := by
  unfold measure
  cases hfind : TimeUnit.all.find? fun u => t.nanoseconds % u.nanoseconds = 0 with
  | none =>
      have hnone := List.find?_eq_none.1 hfind u u.mem_all
      simp [h] at hnone
  | some v =>
      obtain ⟨-, before, after, hall, hbefore⟩ := List.find?_eq_some_iff_append.1 hfind
      have hmem := u.mem_all
      have hordered := TimeUnit.pairwise_all
      rw [hall] at hmem hordered
      rcases List.mem_append.1 hmem with hmem | hmem
      · simpa [h] using hbefore u hmem
      · rcases List.mem_cons.1 hmem with rfl | hmem
        · exact Nat.le_refl _
        · exact (List.pairwise_cons.1 (List.pairwise_append.1 hordered).2.1).1 u hmem

theorem amount_le (h : ofAmount? n u = some t) : t.amount ≤ n := by
  have hns := nanoseconds_of_ofAmount? h
  have hmod : t.nanoseconds % u.nanoseconds = 0 := by rw [hns, Nat.mul_mod_left]
  have hle : n * u.nanoseconds ≤ n * t.measure.nanoseconds :=
    Nat.mul_le_mul_left n (nanoseconds_le_measure hmod)
  rw [← hns, ← amount_mul_measure] at hle
  exact Nat.le_of_mul_le_mul_right hle t.measure.nanoseconds_pos

structure Legible (t : Ttl) : Prop where
  seconds : t.nanoseconds / TimeUnit.nanoseconds .second < secondLimit
  amount : t.amount < Written.countBound

theorem legible_of_ofAmount? (hn : n < Written.countBound) (h : ofAmount? n u = some t) :
    t.Legible := by
  refine ⟨?_, Nat.lt_of_le_of_lt (amount_le h) hn⟩
  rw [nanoseconds_of_ofAmount? h]
  unfold ofAmount? at h
  dsimp only at h
  split at h
  · assumption
  · cases h

theorem Legible.ofAmount?_amount (h : t.Legible) : ofAmount? t.amount t.measure = some t := by
  unfold ofAmount?
  rw [amount_mul_measure]
  exact if_pos h.seconds

def lexemes (t : Ttl) : List Lexeme :=
  [.int (Int64.ofNat t.amount), .word (t.measure.word t.amount)]

theorem writes (h : t.Legible) : Writes t.lexemes t.text.toList := by
  have htext : t.text.toList =
      (toString t.amount).toList ++ ' ' :: (t.measure.word t.amount).toList := by
    simp [text, TimeUnit.word]
  rw [htext]
  exact (Written.writes_count h.amount).append (Writes.word (t.measure.isWord_word _)).blank
    Token.breaks_blank

end Ttl

namespace Written

variable {ts rest : List Token}

theorem legible_of_readTtl {r : Read Token Ttl ts} (hts : ∀ t ∈ ts, Token.Spelled t.lexeme)
    (h : readTtl ts = .ok r) : r.value.Legible := by
  obtain ⟨n, mid, unit, u, ⟨hlt, hcount⟩, -, -, httl⟩ := gives_readTtl_iff.1 ⟨r.shorter, h⟩
  exact Ttl.legible_of_ofAmount? (toNat_of_readCount hts hcount).1 httl

theorem gives_readTtl {t : Ttl} (h : t.Legible) (hs : Spells t.lexemes ts rest) :
    Gives (readTtl ts) t rest := by
  obtain ⟨mid, hamount, hunit⟩ := Spells.uncons hs
  have hlt : t.amount < 2 ^ 64 := Nat.lt_trans h.amount (by decide)
  have htoNat : (UInt64.ofNat t.amount).toNat = t.amount := UInt64.toNat_ofNat_of_lt' hlt
  have hcount : (UInt64.ofNat t.amount).toNat < countBound := by
    rw [htoNat]
    exact h.amount
  refine gives_readTtl_iff.2 ⟨UInt64.ofNat t.amount, mid, _, t.measure,
    gives_readCount_ofNat "ttl" hcount ?_, hunit, t.measure.ofName?_word _, ?_⟩
  · rw [htoNat]
    exact hamount
  · rw [htoNat]
    exact h.ofAmount?_amount

end Written

end RecordQuery
