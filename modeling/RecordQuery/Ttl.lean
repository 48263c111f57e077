namespace RecordQuery

structure Ttl where
  nanoseconds : Nat
  deriving DecidableEq, Repr

inductive TimeUnit where
  | day
  | hour
  | minute
  | second
  | millisecond
  | nanosecond
  deriving DecidableEq, Repr

namespace TimeUnit

def all : List TimeUnit := [.day, .hour, .minute, .second, .millisecond, .nanosecond]

theorem mem_all (u : TimeUnit) : u ∈ all := by cases u <;> decide

def name : TimeUnit → String
  | .day => "day"
  | .hour => "hour"
  | .minute => "minute"
  | .second => "second"
  | .millisecond => "millisecond"
  | .nanosecond => "nanosecond"

def nanoseconds : TimeUnit → Nat
  | .day => 86_400_000_000_000
  | .hour => 3_600_000_000_000
  | .minute => 60_000_000_000
  | .second => 1_000_000_000
  | .millisecond => 1_000_000
  | .nanosecond => 1

def ofName? (word : String) : Option TimeUnit :=
  all.find? fun u => u.name = word || u.name ++ "s" = word

end TimeUnit

namespace Ttl

def secondLimit : Nat := 0x10000000000000000

def ofAmount? (amount : Nat) (u : TimeUnit) : Option Ttl :=
  let n := amount * u.nanoseconds
  if n / TimeUnit.nanoseconds .second < secondLimit then some ⟨n⟩ else none

theorem nanoseconds_of_ofAmount? {amount : Nat} {u : TimeUnit} {t : Ttl}
    (h : ofAmount? amount u = some t) : t.nanoseconds = amount * u.nanoseconds := by
  simp only [ofAmount?] at h
  split at h
  · cases h; rfl
  · cases h

def measure (t : Ttl) : TimeUnit :=
  (TimeUnit.all.find? fun u => t.nanoseconds % u.nanoseconds = 0).getD .nanosecond

theorem measure_dvd (t : Ttl) : t.nanoseconds % t.measure.nanoseconds = 0 := by
  unfold measure
  cases h : TimeUnit.all.find? fun u => t.nanoseconds % u.nanoseconds = 0 with
  | none => simp [TimeUnit.nanoseconds, Nat.mod_one]
  | some u => simpa using List.find?_some h

def amount (t : Ttl) : Nat := t.nanoseconds / t.measure.nanoseconds

theorem amount_mul_measure (t : Ttl) : t.amount * t.measure.nanoseconds = t.nanoseconds :=
  Nat.div_mul_cancel (Nat.dvd_of_mod_eq_zero t.measure_dvd)

def text (t : Ttl) : String :=
  toString t.amount ++ " " ++ t.measure.name ++ (if t.amount = 1 then "" else "s")

end Ttl

end RecordQuery
