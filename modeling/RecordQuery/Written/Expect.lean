import RecordQuery.Read
import RecordQuery.Token.Basic

namespace RecordQuery.Written

abbrev Reading (α : Type) (ts : List Token) := Outcome (Read Token α ts)

def expectMark (m : Mark) : (ts : List Token) → Reading Unit ts
  | ⟨.mark m', source⟩ :: rest =>
      if m' = m then .ok (.one () _ rest)
      else .error (unexpected (Lexeme.mark m).describe (⟨.mark m', source⟩ :: rest))
  | ts => .error (unexpected (Lexeme.mark m).describe ts)

def expectWord (what : String) : (ts : List Token) → Reading String ts
  | ⟨.word name, _⟩ :: rest => .ok (.one name _ rest)
  | ts => .error (unexpected what ts)

def expectKeyword (keyword : String) : (ts : List Token) → Reading Unit ts
  | ⟨.word name, source⟩ :: rest =>
      if name = keyword then .ok (.one () _ rest)
      else .error (unexpected ("'" ++ keyword ++ "'") (⟨.word name, source⟩ :: rest))
  | ts => .error (unexpected ("'" ++ keyword ++ "'") ts)

def expectEnd (ts : List Token) : Outcome Unit :=
  if ts = [] then .ok () else .error (unexpected "end of query" ts)

def deeper (limits : Limits) (limit : Limited) (depth : Nat) : Outcome Nat :=
  if limits.of limit < depth + 1 then
    .error (.limitExceeded limit (limits.of limit) (depth + 1))
  else .ok (depth + 1)

def skipKeyword (keyword : String) : (ts : List Token) → Partly Token Bool ts
  | ⟨.word word, source⟩ :: rest =>
      if word = keyword then .ofRead (.one true _ rest)
      else .nothing false (⟨.word word, source⟩ :: rest)
  | ts => .nothing false ts

def comma? : (ts : List Token) → Option (Read Token Unit ts)
  | ⟨.mark .comma, _⟩ :: rest => some (.one () _ rest)
  | _ => none

def readWords (what : String) (ts : List Token) : Reading (List String) ts := do
  let ⟨name, rest, h⟩ ← expectWord what ts
  match comma? rest with
  | some ⟨_, rest', h'⟩ =>
      let names ← readWords what rest'
      .ok (((names.map (name :: ·)).after h').after h)
  | none => .ok ⟨[name], rest, h⟩
termination_by ts.length

end RecordQuery.Written
