import RecordQuery.Token.Scan
import RecordQuery.Value.Convert
import RecordQuery.Written.Expect

namespace RecordQuery.Written

/-- Whether the tokens begin with a key and a colon, as the entries of a document do. -/
def startsEntry : List Token → Bool
  | ⟨.string _, _⟩ :: ⟨.mark .colon, _⟩ :: _ => true
  | ⟨.word _, _⟩ :: ⟨.mark .colon, _⟩ :: _ => true
  | _ => false

def readKey : (ts : List Token) → Reading String ts
  | ⟨.string key, _⟩ :: rest => .ok (.one key _ rest)
  | ⟨.word key, _⟩ :: rest => .ok (.one key _ rest)
  | ts => .error (unexpected "object key" ts)

/-- The document of entries in order; a key that comes again takes the place of the first. -/
def documentOf (entries : List Column) : Value :=
  .document (entries.foldl (fun columns c => Named.put c.name c.value columns) [])

def wordValue? (word : String) : Option Value :=
  if word = "true" then some (.bool true)
  else if word = "false" then some (.bool false)
  else if word = "null" then some .null
  else none

mutual

/-- A value that stands `depth` levels deep. -/
def readValue (limits : Limits) (depth : Nat) (ts : List Token) : Reading Value ts :=
  match ts with
  | ⟨.string s, _⟩ :: rest => .ok (.one (.string s) _ rest)
  | ⟨.int i, _⟩ :: rest => .ok (.one (.int i) _ rest)
  | ⟨.decimal x, _⟩ :: rest => .ok (.one (.float x) _ rest)
  | ⟨.param name, _⟩ :: rest => .ok (.one (.param name) _ rest)
  | ⟨.word word, source⟩ :: rest =>
      match wordValue? word, rest with
      | some v, rest => .ok (.one v _ rest)
      | none, ⟨.mark .openParen, source'⟩ :: rest =>
          if word = "convert" then do
            let depth ← deeper limits .literalDepth depth
            let r ← readConversion limits depth rest
            .ok ((r.behind _).behind _)
          else
            .error (unexpected "value" (⟨.word word, source⟩ :: ⟨.mark .openParen, source'⟩ :: rest))
      | none, rest => .error (unexpected "value" (⟨.word word, source⟩ :: rest))
  | ⟨.mark .openBrace, _⟩ :: rest => do
      let depth ← deeper limits .literalDepth depth
      let r ← readBraces limits depth rest
      .ok (r.behind _)
  | ⟨.mark .openBracket, _⟩ :: rest => do
      let depth ← deeper limits .literalDepth depth
      let r ← readBrackets limits depth rest
      .ok (r.behind _)
  | ts => .error (unexpected "value" ts)
termination_by (ts.length, 0)

def readBraces (limits : Limits) (depth : Nat) (ts : List Token) : Reading Value ts :=
  match ts with
  | ⟨.mark .closeBrace, _⟩ :: rest => .ok (.one (.document []) _ rest)
  | ts =>
      if startsEntry ts then (readEntries limits depth ts).map (·.map documentOf)
      else (readItems limits depth .closeBrace ts).map (·.map Value.list)
termination_by (ts.length, 2)

def readBrackets (limits : Limits) (depth : Nat) (ts : List Token) : Reading Value ts :=
  match ts with
  | ⟨.mark .closeBracket, _⟩ :: rest => .ok (.one (.list []) _ rest)
  | ts => (readItems limits depth .closeBracket ts).map (·.map Value.list)
termination_by (ts.length, 2)

def readItems (limits : Limits) (depth : Nat) (close : Mark) (ts : List Token) :
    Reading (List Value) ts := do
  let ⟨v, rest, h⟩ ← readValue limits depth ts
  match comma? rest with
  | some ⟨_, rest', h'⟩ =>
      let vs ← readItems limits depth close rest'
      .ok (((vs.map (v :: ·)).after h').after h)
  | none =>
      let closed ← expectMark close rest
      .ok ((closed.map fun _ => [v]).after h)
termination_by (ts.length, 1)

def readEntries (limits : Limits) (depth : Nat) (ts : List Token) : Reading (List Column) ts := do
  let ⟨key, rest, h₁⟩ ← readKey ts
  let ⟨_, rest, h₂⟩ ← expectMark .colon rest
  let ⟨v, rest, h₃⟩ ← readValue limits depth rest
  match comma? rest with
  | some ⟨_, rest', h₄⟩ =>
      let entries ← readEntries limits depth rest'
      .ok (((((entries.map (⟨key, v⟩ :: ·)).after h₄).after h₃).after h₂).after h₁)
  | none =>
      let closed ← expectMark .closeBrace rest
      .ok ((((closed.map fun _ => [⟨key, v⟩]).after h₃).after h₂).after h₁)
termination_by (ts.length, 1)

def readConversion (limits : Limits) (depth : Nat) (ts : List Token) : Reading Value ts := do
  let ⟨v, rest, h₁⟩ ← readValue limits depth ts
  if v.params ≠ [] then .error (Fault.convertParameter.at ts)
  else
    let ⟨_, rest, h₂⟩ ← expectMark .comma rest
    let ⟨name, rest, h₃⟩ ← expectWord "type name" rest
    let closed ← expectMark .closeParen rest
    let v ← v.convert (← ScalarType.ofName name)
    .ok ((((closed.map fun _ => v).after h₃).after h₂).after h₁)
termination_by (ts.length, 1)

end

def literal (s : String) : Outcome Value := do
  let ts ← Token.ofChars s.toList
  let ⟨v, rest, _⟩ ← readValue {} 0 ts
  expectEnd rest
  match v with
  | .param name =>
      .error (.malformed .literalParameter (QueryError.fragment ('@' :: name.toList)))
  | v => .ok v

end RecordQuery.Written
