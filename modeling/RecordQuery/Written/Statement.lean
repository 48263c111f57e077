import RecordQuery.Statement.Basic
import RecordQuery.Written.Clause

namespace RecordQuery

abbrev Written := Statement Clause

namespace Written

def params (w : Written) : List String := w.paramsBy Clause.params

/-- The entity of a statement; a query that ends before it lacks it. -/
def readEntity (verb : Verb) : (ts : List Token) → Reading String ts
  | [] => .error (.missingEntity verb)
  | ts => expectWord "entity name" ts

def readCount (clause : String) : (ts : List Token) → Reading UInt64 ts
  | ⟨.int i, source⟩ :: rest =>
      if 0 ≤ i.toInt then .ok (.one (UInt64.ofNat i.toInt.toNat) _ rest)
      else .error ((Fault.negative clause).at (⟨.int i, source⟩ :: rest))
  | ts => .error (unexpected ("number after '" ++ clause ++ "'") ts)

def readWhere (limits : Limits) (ts : List Token) :
    Outcome (Partly Token (Option Clause) ts) :=
  match skipKeyword "where" ts with
  | ⟨false, _, _⟩ => .ok (.nothing none ts)
  | ⟨true, rest, h⟩ => (readClause limits rest).map fun r => .ofRead ((r.map some).within h)

def readDirection (ts : List Token) : Partly Token Direction ts :=
  match skipKeyword "desc" ts, skipKeyword "asc" ts with
  | ⟨true, rest, h⟩, _ => ⟨.descending, rest, h⟩
  | ⟨false, _, _⟩, ⟨_, rest, h⟩ => ⟨.ascending, rest, h⟩

def readSorts (ts : List Token) : Reading (List SortKey) ts := do
  let ⟨name, rest, h₁⟩ ← expectWord "sort field" ts
  let ⟨direction, rest, h₂⟩ := readDirection rest
  match comma? rest with
  | some ⟨_, rest', h₃⟩ =>
      let sorts ← readSorts rest'
      .ok ((((sorts.map (⟨name, direction⟩ :: ·)).after h₃).within h₂).after h₁)
  | none => .ok (Partly.after h₁ ⟨[⟨name, direction⟩], rest, h₂⟩)
termination_by ts.length

structure Window where
  sorts : Option (List SortKey)
  skip : Option UInt64
  limit : Option UInt64
  deriving Repr

/-- Reads clauses in any order up to the end; each may come once. -/
def readWindow (w : Window) (ts : List Token) : Outcome Window :=
  match ts with
  | ⟨.word word, source⟩ :: rest =>
      if word = "order" then
        if w.sorts.isSome then .error ((Fault.duplicate "order by").at (⟨.word word, source⟩ :: rest))
        else do
          let ⟨_, rest, _h₁⟩ ← expectKeyword "by" rest
          let ⟨sorts, rest, _h₂⟩ ← readSorts rest
          readWindow { w with sorts := some sorts } rest
      else if word = "skip" then
        if w.skip.isSome then .error ((Fault.duplicate "skip").at (⟨.word word, source⟩ :: rest))
        else do
          let ⟨n, rest, _h⟩ ← readCount "skip" rest
          readWindow { w with skip := some n } rest
      else if word = "limit" then
        if w.limit.isSome then .error ((Fault.duplicate "limit").at (⟨.word word, source⟩ :: rest))
        else do
          let ⟨n, rest, _h⟩ ← readCount "limit" rest
          readWindow { w with limit := some n } rest
      else .error (unexpected "end of query" (⟨.word word, source⟩ :: rest))
  | [] => .ok w
  | ts => .error (unexpected "end of query" ts)
termination_by ts.length

def readProjection : (ts : List Token) → Reading (List String) ts
  | ⟨.mark .star, _⟩ :: rest => .ok (.one [] _ rest)
  | ts => readWords "field name" ts

/-- `from` and an entity; a query that ends before `from` lacks the entity. -/
def readSource (verb : Verb) (ts : List Token) : Reading String ts :=
  if ts = [] then .error (.missingEntity verb)
  else do
    let ⟨_, rest, h⟩ ← expectKeyword "from" ts
    let entity ← readEntity verb rest
    .ok (entity.after h)

def readSelect (limits : Limits) (ts : List Token) : Outcome Written := do
  let ⟨_, rest, _⟩ ← expectKeyword "select" ts
  let ⟨fields, rest, _⟩ ← readProjection rest
  let ⟨entity, rest, _⟩ ← readSource .select rest
  let ⟨condition, rest, _⟩ ← readWhere limits rest
  let window ← readWindow ⟨none, none, none⟩ rest
  .ok (.select ⟨entity, fields, condition, window.sorts.getD [], window.limit.getD 0,
    window.skip.getD 0⟩)

def readRemoved (ts : List Token) : Outcome (Partly Token (List String) ts) :=
  if ts = [] ∨ (skipKeyword "from" ts).value then .ok (.nothing [] ts)
  else (readWords "field name" ts).map .ofRead

def readDelete (limits : Limits) (ts : List Token) : Outcome Written := do
  let ⟨_, rest, _⟩ ← expectKeyword "delete" ts
  let ⟨fields, rest, _⟩ ← readRemoved rest
  let ⟨entity, rest, _⟩ ← readSource .delete rest
  let ⟨condition, rest, _⟩ ← readWhere limits rest
  expectEnd rest
  .ok (.delete ⟨entity, fields, condition⟩)

def readAssignments (limits : Limits) (ts : List Token) : Reading (List Column) ts := do
  let ⟨name, rest, h₁⟩ ← expectWord "field name" ts
  let ⟨_, rest, h₂⟩ ← expectMark .equal rest
  let ⟨v, rest, h₃⟩ ← readValue limits 0 rest
  match comma? rest with
  | some ⟨_, rest', h₄⟩ =>
      let columns ← readAssignments limits rest'
      .ok (((((columns.map (⟨name, v⟩ :: ·)).after h₄).after h₃).after h₂).after h₁)
  | none =>
      let closed ← expectMark .closeParen rest
      .ok ((((closed.map fun _ => [⟨name, v⟩]).after h₃).after h₂).after h₁)
termination_by ts.length

def readPayload (limits : Limits) (ts : List Token) : Reading (List Column) ts := do
  let ⟨v, rest, h⟩ ← readBraces limits 0 ts
  match v with
  | .document columns => .ok ⟨columns, rest, h⟩
  | _ => .error (Fault.payload.at rest)

/-- The columns of a record: assignments in parentheses, or a document with or without them. -/
def readBody (limits : Limits) : (ts : List Token) → Reading (List Column) ts
  | ⟨.mark .openBrace, _⟩ :: rest => (readPayload limits rest).map (·.behind _)
  | ⟨.mark .openParen, _⟩ :: ⟨.mark .openBrace, _⟩ :: rest => do
      let ⟨columns, rest, h⟩ ← readPayload limits rest
      let closed ← expectMark .closeParen rest
      .ok ((((closed.map fun _ => columns).after h).behind _).behind _)
  | ⟨.mark .openParen, _⟩ :: rest => (readAssignments limits rest).map (·.behind _)
  | ts => .error (unexpected "'(' or '\x7b'" ts)

def readTtl (ts : List Token) : Reading Ttl ts := do
  let ⟨amount, rest, h⟩ ← readCount "ttl" ts
  let ⟨unit, rest, h'⟩ ← expectWord "ttl unit" rest
  match TimeUnit.ofName? unit with
  | none => .error ((Fault.ttlUnit unit).at rest)
  | some u =>
      match Ttl.ofAmount? amount.toNat u with
      | none => .error (Fault.ttlOverflow.at rest)
      | some ttl => .ok (Read.after h ⟨ttl, rest, h'⟩)

def readLastTtl (ts : List Token) : Outcome (Option Ttl) :=
  if ts = [] then .ok none
  else do
    let ⟨ttl, rest, _⟩ ← readTtl ts
    expectEnd rest
    .ok (some ttl)

def readInsert (limits : Limits) (ts : List Token) : Outcome Written := do
  let ⟨_, rest, _⟩ ← expectKeyword "insert" ts
  let ⟨entity, rest, _⟩ ← readEntity .insert rest
  let ⟨columns, rest, _⟩ ← readBody limits rest
  let ttl ← readLastTtl rest
  .ok (.insert ⟨entity, columns⟩ ttl)

def readUpdate (limits : Limits) (ts : List Token) : Outcome Written := do
  let ⟨_, rest, _⟩ ← expectKeyword "update" ts
  let ⟨entity, rest, _⟩ ← readEntity .update rest
  let ⟨columns, rest, _⟩ ← readBody limits rest
  expectEnd rest
  .ok (.update ⟨entity, columns⟩)

def readStatement (limits : Limits) (verb : Verb) (ts : List Token) : Outcome Written :=
  match verb with
  | .select => readSelect limits ts
  | .delete => readDelete limits ts
  | .insert => readInsert limits ts
  | .update => readUpdate limits ts

def verbLength : Nat := 6

/-- Reads a statement. Its first six letters are its verb. -/
def ofText (limits : Limits) (query : String) : Outcome Written :=
  match Verb.ofKeyword? (String.ofList (query.toList.take verbLength)) with
  | none => .error (.unknownCommand (QueryError.fragment query.toList))
  | some verb => do
      let ts ← Token.ofChars query.toList
      readStatement limits verb ts

end Written

end RecordQuery
