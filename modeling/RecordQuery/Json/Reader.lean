import RecordQuery.Json.Numeral
import RecordQuery.Number.Digit
import RecordQuery.Read

/-!
Reading JSON text. The grammar is the strict one: no blanks but space, tab and line ends, no
leading zeros, no bare controls in strings, no half of a surrogate pair, no number beyond the range
of a binary number, and fewer than 128 levels of brackets.
-/

namespace RecordQuery.Json

def isBlank (c : Char) : Bool := c = ' ' || c = '\t' || c = '\n' || c = '\r'

def afterBlanks (cs : List Char) : List Char := cs.dropWhile isBlank

theorem length_afterBlanks_le (cs : List Char) : (afterBlanks cs).length ≤ cs.length :=
  (List.dropWhile_sublist _).length_le

def beforeBlanks {α : Type} {cs : List Char} (r : Read Char α (afterBlanks cs)) :
    Read Char α cs :=
  r.within (length_afterBlanks_le cs)

def isHighHalf (n : Nat) : Bool := 0xD800 ≤ n ∧ n < 0xDC00

def isLowHalf (n : Nat) : Bool := 0xDC00 ≤ n ∧ n < 0xE000

def ofHalves (high low : Nat) : Char :=
  Char.ofNat (0x10000 + (high - 0xD800) * 0x400 + (low - 0xDC00))

/-- The character after `\u`: four hexadecimal digits, or a pair of them for a character beyond the
first plane. -/
def readNumbered? : (cs : List Char) → Option (Read Char Char cs)
  | a :: b :: c :: d :: cs =>
      match Number.ofHexDigits? [a, b, c, d] with
      | none => none
      | some n =>
          if isHighHalf n then
            match cs with
            | '\\' :: 'u' :: e :: f :: g :: h :: cs =>
                match Number.ofHexDigits? [e, f, g, h] with
                | none => none
                | some m => if isLowHalf m then some ⟨ofHalves n m, cs, by simp; omega⟩ else none
            | _ => none
          else if isLowHalf n then none
          else some ⟨Char.ofNat n, cs, by simp; omega⟩
  | _ => none

def escaped? (c : Char) : Option Char :=
  match c with
  | '"' => some '"'
  | '\\' => some '\\'
  | '/' => some '/'
  | 'b' => some '\x08'
  | 'f' => some '\x0c'
  | 'n' => some '\n'
  | 'r' => some '\r'
  | 't' => some '\t'
  | _ => none

/-- One character of a string, or nothing at its closing quote. -/
def readChar? : (cs : List Char) → Option (Read Char (Option Char) cs)
  | '"' :: cs => some (.one none '"' cs)
  | '\\' :: 'u' :: cs =>
      (readNumbered? cs).map fun r => (r.map some).within (by simp; omega)
  | '\\' :: c :: cs => (escaped? c).map fun c => ⟨some c, cs, by simp only [List.length_cons]; omega⟩
  | c :: cs => if c = '\\' ∨ c.toNat < 0x20 then none else some (.one (some c) c cs)
  | [] => none

def readString? (cs : List Char) : Option (Read Char (List Char) cs) :=
  match readChar? cs with
  | none => none
  | some ⟨none, rest, h⟩ => some ⟨[], rest, h⟩
  | some ⟨some c, rest, h⟩ =>
      match readString? rest with
      | none => none
      | some tail => some ((tail.map (c :: ·)).within (Nat.le_of_lt h))
termination_by cs.length

def readFraction? : (cs : List Char) → Option (List Char × { rest : List Char //
    rest.length ≤ cs.length })
  | '.' :: cs =>
      if cs.takeWhile Char.isDigit = [] then none
      else
        some (cs.takeWhile Char.isDigit, ⟨cs.dropWhile Char.isDigit,
          Nat.le_succ_of_le (List.dropWhile_sublist _).length_le⟩)
  | cs => some ([], ⟨cs, Nat.le_refl _⟩)

def readExponent? : (cs : List Char) → Option (Option Int × { rest : List Char //
    rest.length ≤ cs.length })
  | [] => some (none, ⟨[], Nat.le_refl _⟩)
  | c :: cs =>
      if c = 'e' ∨ c = 'E' then
        let signed := Decimal.splitSign cs
        match Number.digits? (signed.2.takeWhile Char.isDigit) with
        | none => none
        | some n =>
            some (some (if signed.1 then -Int.ofNat n else Int.ofNat n),
              ⟨signed.2.dropWhile Char.isDigit,
                Nat.le_trans (List.dropWhile_sublist _).length_le
                  (Nat.le_succ_of_le (Decimal.length_splitSign_le cs))⟩)
      else some (none, ⟨c :: cs, Nat.le_refl _⟩)

def readNumber? (w : Weighing) (cs : List Char) : Option (Read Char Json cs) :=
  let negative := decide (cs.head? = some '-')
  let body := if negative then cs.tail else cs
  let whole := body.takeWhile Char.isDigit
  if hw : body.takeWhile Char.isDigit = [] then none
  else if whole.head? = some '0' ∧ whole.length ≠ 1 then none
  else
    match readFraction? (body.dropWhile Char.isDigit) with
    | none => none
    | some (part, ⟨rest, hp⟩) =>
        match readExponent? rest with
        | none => none
        | some (exponent, ⟨rest, he⟩) =>
            (Numeral.toJson? w ⟨negative, whole, part, exponent⟩).map fun v => ⟨v, rest, by
              have hb : body.length ≤ cs.length := by
                simp only [body]
                split <;> simp
              have hd := length_dropWhile_lt hw
              omega⟩

def readWord? : (cs : List Char) → Option (Read Char Json cs)
  | 'n' :: 'u' :: 'l' :: 'l' :: cs => some ⟨.null, cs, by simp; omega⟩
  | 't' :: 'r' :: 'u' :: 'e' :: cs => some ⟨.bool true, cs, by simp; omega⟩
  | 'f' :: 'a' :: 'l' :: 's' :: 'e' :: cs => some ⟨.bool false, cs, by simp; omega⟩
  | _ => none

def next? (cs : List Char) : Option (Read Char Char cs) :=
  match h : afterBlanks cs with
  | [] => none
  | c :: rest => some ⟨c, rest, by
      have hle := length_afterBlanks_le cs
      simp only [h, List.length_cons] at hle
      omega⟩

mutual

/-- A value, with at most `depth` further levels of brackets. -/
def readValue? (w : Weighing) (depth : Nat) (cs : List Char) : Option (Read Char Json cs) :=
  match next? cs with
  | none => none
  | some ⟨'"', rest, h⟩ =>
      (readString? rest).map fun r =>
        (r.map fun s => Json.string (String.ofList s)).within (Nat.le_of_lt h)
  | some ⟨'[', rest, h⟩ =>
      match depth, next? rest with
      | 0, _ => none
      | _ + 1, some ⟨']', rest', h'⟩ => some ⟨.array [], rest', Nat.lt_trans h' h⟩
      | depth + 1, _ =>
          (readItems? w depth rest).map fun r => (r.map Json.array).within (Nat.le_of_lt h)
  | some ⟨'{', rest, h⟩ =>
      match depth, next? rest with
      | 0, _ => none
      | _ + 1, some ⟨'}', rest', h'⟩ => some ⟨.object [], rest', Nat.lt_trans h' h⟩
      | depth + 1, _ =>
          (readFields? w depth rest).map fun r => (r.map ofFields).within (Nat.le_of_lt h)
  | some ⟨c, _, _⟩ =>
      let found := if c = '-' ∨ c.isDigit then readNumber? w (afterBlanks cs)
        else readWord? (afterBlanks cs)
      found.map beforeBlanks
termination_by (cs.length, 0)

def readItems? (w : Weighing) (depth : Nat) (cs : List Char) : Option (Read Char (List Json) cs) :=
  match readValue? w depth cs with
  | none => none
  | some ⟨v, rest, h⟩ =>
      match next? rest with
      | some ⟨']', rest', h'⟩ => some ⟨[v], rest', Nat.lt_trans h' h⟩
      | some ⟨',', rest', h'⟩ =>
          (readItems? w depth rest').map fun r =>
            (r.map (v :: ·)).within (Nat.le_of_lt (Nat.lt_trans h' h))
      | _ => none
termination_by (cs.length, 1)

def readFields? (w : Weighing) (depth : Nat) (cs : List Char) :
    Option (Read Char (List (Named Json)) cs) :=
  match next? cs with
  | some ⟨'"', rest, h⟩ =>
      match readString? rest with
      | none => none
      | some ⟨name, rest₁, h₁⟩ =>
          match next? rest₁ with
          | some ⟨':', rest₂, h₂⟩ =>
              match readValue? w depth rest₂ with
              | none => none
              | some ⟨v, rest₃, h₃⟩ =>
                  let field : Named Json := ⟨String.ofList name, v⟩
                  match next? rest₃ with
                  | some ⟨'}', rest₄, h₄⟩ => some ⟨[field], rest₄, by omega⟩
                  | some ⟨',', rest₄, h₄⟩ =>
                      (readFields? w depth rest₄).map fun r =>
                        (r.map (field :: ·)).within (by omega)
                  | _ => none
          | _ => none
  | _ => none
termination_by (cs.length, 1)

end

def read? (w : Weighing) (s : String) : Option Json :=
  match readValue? w 127 s.toList with
  | none => none
  | some r => if afterBlanks r.rest = [] then some r.value else none

end RecordQuery.Json
