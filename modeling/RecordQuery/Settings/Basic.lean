import RecordQuery.Json.Basic
import RecordQuery.Limits

namespace RecordQuery

inductive Setting where
  | cacheCapacity
  | conditionDepth
  | inList
  | literalDepth
  deriving DecidableEq, Repr

namespace Setting

def all : List Setting := [.cacheCapacity, .conditionDepth, .inList, .literalDepth]

def key : Setting → String
  | .cacheCapacity => "cache_capacity"
  | .conditionDepth => "max_condition_depth"
  | .inList => "max_in_list"
  | .literalDepth => "max_literal_depth"

def ofKey? (key : String) : Option Setting := all.find? fun s => s.key = key

theorem ofKey?_key (s : Setting) : ofKey? s.key = some s := by cases s <;> decide

def get (limits : Limits) : Setting → Nat
  | .cacheCapacity => limits.cacheCapacity
  | .conditionDepth => limits.conditionDepth
  | .inList => limits.inList
  | .literalDepth => limits.literalDepth

def set (limits : Limits) (n : Nat) : Setting → Limits
  | .cacheCapacity => { limits with cacheCapacity := n }
  | .conditionDepth => { limits with conditionDepth := n }
  | .inList => { limits with inList := n }
  | .literalDepth => { limits with literalDepth := n }

theorem get_set_self (limits : Limits) (n : Nat) (s : Setting) : s.get (s.set limits n) = n := by
  cases s <;> rfl

theorem get_set_of_ne (limits : Limits) (n : Nat) {s t : Setting} (h : s ≠ t) :
    t.get (s.set limits n) = t.get limits := by
  cases s <;> cases t <;> first | rfl | exact absurd rfl h

end Setting

namespace Limits

def ofSettings (entries : List (Setting × Nat)) : Limits :=
  entries.foldl (fun limits e => e.1.set limits e.2) {}

def toJson (limits : Limits) : Json :=
  .object (Setting.all.map fun s => ⟨s.key, .int (s.get limits)⟩)

end Limits

end RecordQuery
