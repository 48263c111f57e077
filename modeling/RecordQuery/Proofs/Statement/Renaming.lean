import RecordQuery.Proofs.Condition.Resolve
import RecordQuery.Query

namespace RecordQuery

namespace Condition

variable {field : String → String}

mutual

def rename (field : String → String) : Condition → Condition
  | .compare k column => .compare k { column with name := field column.name }
  | .group k children => .group k (renameChildren field children)
  | .not inner => .not (inner.rename field)

def renameChildren (field : String → String) : List Condition → List Condition
  | [] => []
  | c :: cs => c.rename field :: renameChildren field cs

end

theorem renameChildren_eq_map (cs : List Condition) :
    renameChildren field cs = cs.map (rename field) := by
  induction cs with
  | nil => rfl
  | cons c cs ih => simp [renameChildren, ih]

theorem rename_negate (c : Condition) : c.negate.rename field = (c.rename field).negate := by
  cases c <;> rfl

/-- A connective joins what it joins under other names, as it goes by the kind of the left side. -/
theorem rename_join (left : Condition) (k : Connective) (right : Condition) :
    (left.join k right).rename field = (left.rename field).join k (right.rename field) := by
  cases left with
  | compare | not => rfl
  | group k' children =>
      by_cases hk : k' = k
      · subst hk
        rw [join_group_self, rename, rename, join_group_self]
        simp only [renameChildren_eq_map, List.map_append, List.map_singleton]
      · rw [join, if_neg hk, rename, rename, join, if_neg hk]
        rfl

theorem ofColumn_rename (k : Comparison) (name : String) (v : Value) :
    ofColumn k ⟨field name, v⟩ = (ofColumn k ⟨name, v⟩).map (rename field) := by
  unfold ofColumn
  cases admits k v <;> rfl

end Condition

namespace Clause

variable {field : String → String}

mutual

theorem resolve_rename : ∀ c : Clause,
    c.resolve field = (c.resolve fun name => name).map (Condition.rename field)
  | .compare name k v => Condition.ofColumn_rename k name v
  | .not inner => by
      rw [resolve, resolve, resolve_rename inner]
      cases inner.resolve fun name => name with
      | error e => rfl
      | ok tree => exact congrArg Except.ok (Condition.rename_negate tree).symm
  | .chain first rest => by
      rw [resolve, resolve, resolve_rename first]
      cases first.resolve fun name => name with
      | error e => rfl
      | ok left => exact resolveRest_rename left rest

theorem resolveRest_rename (left : Condition) : ∀ rest : List (Connective × Clause),
    resolveRest field (left.rename field) rest =
      (resolveRest (fun name => name) left rest).map (Condition.rename field)
  | [] => rfl
  | (k, next) :: rest => by
      rw [resolveRest, resolveRest, resolve_rename next]
      cases next.resolve fun name => name with
      | error e => rfl
      | ok right =>
          have h := resolveRest_rename (left.join k right) rest
          rw [Condition.rename_join] at h
          exact h

end

theorem resolveSome_rename (c : Option Clause) :
    resolveSome field c =
      (resolveSome (fun name => name) c).map (Option.map (Condition.rename field)) := by
  cases c with
  | none => rfl
  | some c =>
      rw [resolveSome, resolveSome, resolve_rename]
      cases c.resolve fun name => name <;> rfl

end Clause

/-- The statement under other names. Its fields are renamed by the entity it has itself. -/
def Command.rename (naming : Naming) : Command → Command
  | .select q => .select { q with
      entity := naming.entity q.entity
      fields := q.fields.map (naming.field q.entity)
      condition := q.condition.map (Condition.rename (naming.field q.entity))
      sorts := q.sorts.map fun s => { s with name := naming.field q.entity s.name } }
  | .delete q => .delete { q with
      entity := naming.entity q.entity
      fields := q.fields.map (naming.field q.entity)
      condition := q.condition.map (Condition.rename (naming.field q.entity)) }
  | .insert r ttl => .insert ⟨naming.entity r.entity,
      r.columns.map fun c => { c with name := naming.field r.entity c.name }⟩ ttl
  | .update r => .update ⟨naming.entity r.entity,
      r.columns.map fun c => { c with name := naming.field r.entity c.name }⟩

theorem Written.resolve_rename (naming : Naming) (w : Written) :
    w.resolve naming = (w.resolve .identity).map (Command.rename naming) := by
  cases w with
  | select q | delete q =>
      rw [resolve, resolve, Clause.resolveSome_rename]
      change _ = Except.map _ (Clause.resolveSome (fun name => name) q.condition >>= _)
      cases Clause.resolveSome (fun name => name) q.condition with
      | error e => rfl
      | ok condition =>
          simp [Outcome.ok_bind, Outcome.ok_map, Command.rename, Naming.identity]
  | insert r ttl | update r =>
      simp [resolve, Outcome.ok_map, Command.rename, Record.rename, Naming.identity]

namespace Query

def rename (naming : Naming) (q : Query) : Query :=
  { q with command := q.command.rename naming }

theorem ofWritten_rename (naming : Naming) (w : Written) :
    ofWritten naming w = (ofWritten .identity w).map (rename naming) := by
  rw [ofWritten, ofWritten, Written.resolve_rename]
  cases w.resolve .identity <;> rfl

/-- A text is read under a naming as it is under its own names: it fails with the same error, or
gives the same query with its entity and its fields renamed, and nothing else of it changed. -/
theorem naming_only_renames (limits : Limits) (naming : Naming) (text : String) :
    parse limits naming text = (parse limits .identity text).map (rename naming) := by
  rw [parse, parse]
  cases Written.ofText limits text with
  | error e => rfl
  | ok w => exact ofWritten_rename naming w

end Query

end RecordQuery
