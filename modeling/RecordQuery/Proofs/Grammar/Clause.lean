import RecordQuery.Proofs.Grammar.Literal
import RecordQuery.Written.Clause

namespace RecordQuery.Written

open Token (Spells)

def operator : Comparison → Lexeme
  | .equal => .mark .equal
  | .greater => .mark .greater
  | .greaterEqual => .mark .greaterEqual
  | .less => .mark .less
  | .lessEqual => .mark .lessEqual
  | .isIn => .word "in"
  | .like => .word "like"
  | .between => .word "between"

inductive Operand (limits : Limits) : Comparison → List Lexeme → Value → Prop
  | listed {ls : List Lexeme} {vs : List Value} (hvs : Items limits 0 ls vs)
      (hcount : vs.length ≤ limits.inList) :
      Operand limits .isIn (.mark .openParen :: (ls ++ [.mark .closeParen])) (.list vs)
  | members {ls : List Lexeme} {vs : List Value} (hvs : Literal limits 0 ls (.list vs))
      (hcount : vs.length ≤ limits.inList) : Operand limits .isIn ls (.list vs)
  | param {ls : List Lexeme} {name : String} (hv : Literal limits 0 ls (.param name)) :
      Operand limits .isIn ls (.param name)
  | bounds {ls ls' : List Lexeme} {low high : Value} (hlow : Literal limits 0 ls low)
      (hhigh : Literal limits 0 ls' high) :
      Operand limits .between (ls ++ .word "and" :: ls') (.list [low, high])
  | value {c : Comparison} {ls : List Lexeme} {v : Value} (hin : c ≠ .isIn)
      (hbetween : c ≠ .between) (hv : Literal limits 0 ls v) : Operand limits c ls v

mutual

inductive Term (limits : Limits) : Nat → List Lexeme → Clause → Prop
  | not {depth : Nat} {ls : List Lexeme} {c : Clause} (hdepth : depth < limits.conditionDepth)
      (hc : Term limits (depth + 1) ls c) : Term limits depth (.word "not" :: ls) (.not c)
  | group {depth : Nat} {ls : List Lexeme} {first : Clause} {more : List (Connective × Clause)}
      (hdepth : depth < limits.conditionDepth) (hc : Chain limits (depth + 1) ls first more) :
      Term limits depth (.mark .openParen :: (ls ++ [.mark .closeParen])) (chainOf first more)
  | compare {depth : Nat} {field : String} {c : Comparison} {ls : List Lexeme} {v : Value}
      (hfield : field ≠ "not") (hv : Operand limits c ls v) :
      Term limits depth (.word field :: operator c :: ls) (.compare field c v)
  | negated {depth : Nat} {field : String} {c : Comparison} {ls : List Lexeme} {v : Value}
      (hfield : field ≠ "not") (hmay : mayNegate c = true) (hv : Operand limits c ls v) :
      Term limits depth (.word field :: .word "not" :: operator c :: ls)
        (.not (.compare field c v))

inductive Chain (limits : Limits) :
    Nat → List Lexeme → Clause → List (Connective × Clause) → Prop
  | one {depth : Nat} {ls : List Lexeme} {c : Clause} (hc : Term limits depth ls c) :
      Chain limits depth ls c []
  | cons {depth : Nat} {ls ls' : List Lexeme} {c next : Clause} {k : Connective}
      {more : List (Connective × Clause)} (hc : Term limits depth ls c)
      (hmore : Chain limits depth ls' next more) :
      Chain limits depth (ls ++ .word k.symbol :: ls') c ((k, next) :: more)

end

variable {limits : Limits} {ts rest : List Token}

theorem checkCount_eq_ok {count : Nat} {u : Unit} :
    checkCount limits count = .ok u ↔ count ≤ limits.inList := by
  unfold checkCount
  split
  · next h => simp [Nat.not_le.2 h]
  · next h => simp [Nat.not_lt.1 h]

theorem skipKeyword_of_spells {keyword : String} (h : Spells [.word keyword] ts rest) :
    ∃ hle, skipKeyword keyword ts = ⟨true, rest, hle⟩ := by
  obtain ⟨source, rest, rfl, rfl⟩ := h
  exact ⟨Nat.le_succ _, by simp [skipKeyword, Read.one, Partly.ofRead]⟩

theorem skipKeyword_of_not_spells {keyword : String}
    (h : ∀ rest, ¬ Spells [.word keyword] ts rest) :
    skipKeyword keyword ts = .nothing false ts :=
  skipKeyword_of_no_keyword fun source rest hts => h rest ⟨source, rest, hts, rfl⟩

theorem spells_of_skipKeyword {keyword : String} (h : (skipKeyword keyword ts).value = true) :
    Spells [.word keyword] ts (skipKeyword keyword ts).rest := by
  by_cases hs : ∃ rest, Spells [.word keyword] ts rest
  · obtain ⟨rest, hs⟩ := hs
    obtain ⟨_, hskip⟩ := skipKeyword_of_spells hs
    rw [hskip]
    exact hs
  · rw [skipKeyword_of_not_spells (not_exists.1 hs)] at h
    cases h

theorem skipKeyword_rest_of_false {keyword : String}
    (h : (skipKeyword keyword ts).value = false) : (skipKeyword keyword ts).rest = ts := by
  unfold skipKeyword at h ⊢
  split at h
  · split at h
    · cases h
    · next hword =>
        rw [if_neg hword]
        rfl
  · rfl

theorem gives_readComparison {c : Comparison} :
    Gives (readComparison ts) c rest ↔ Spells [operator c] ts rest := by
  constructor
  · rintro ⟨hlt, h⟩
    unfold readComparison at h
    split at h
    · next m source rest =>
        split at h
        · next c' hm =>
            cases h
            refine ⟨source, rest, ?_, rfl⟩
            cases m <;> cases hm <;> rfl
        · cases h
    · next word source rest =>
        split at h
        · next hword => cases h; exact ⟨source, rest, by rw [hword]; rfl, rfl⟩
        · split at h
          · next hword => cases h; exact ⟨source, rest, by rw [hword]; rfl, rfl⟩
          · split at h
            · next hword => cases h; exact ⟨source, rest, by rw [hword]; rfl, rfl⟩
            · cases h
    · cases h
  · rintro ⟨source, rest, rfl, rfl⟩
    cases c <;> exact ⟨Nat.lt_succ_self _, rfl⟩

theorem spells_of_connective? {r : Read Token Connective ts} (h : connective? ts = some r) :
    Spells [.word r.value.symbol] ts r.rest := by
  unfold connective? at h
  split at h
  · next word source rest =>
      split at h
      · next hword => cases h; exact ⟨source, rest, by rw [hword]; rfl, rfl⟩
      · split at h
        · next hword => cases h; exact ⟨source, rest, by rw [hword]; rfl, rfl⟩
        · cases h
  · cases h

theorem connective?_of_spells {k : Connective} (h : Spells [.word k.symbol] ts rest) :
    ∃ hlt, connective? ts = some ⟨k, rest, hlt⟩ := by
  obtain ⟨source, rest, rfl, rfl⟩ := h
  cases k <;> exact ⟨Nat.lt_succ_self _, rfl⟩

theorem connective?_of_mark {m : Mark} {ls : List Lexeme} (h : Spells (.mark m :: ls) ts rest) :
    connective? ts = none := by
  obtain ⟨source, ts, rfl, -⟩ := h
  rfl

theorem listed_of_readListed {count : Nat} {ts : List Token} {r : Read Token (List Value) ts}
    (h : readListed limits count ts = .ok r) :
    ∃ ls, Items limits 0 ls r.value ∧ count + r.value.length ≤ limits.inList ∧
      Spells (ls ++ [.mark .closeParen]) ts r.rest := by
  unfold readListed at h
  simp only [Outcome.bind_eq_ok, checkCount_eq_ok] at h
  obtain ⟨⟨v, rest, hlt⟩, hv, u, hcount, h⟩ := h
  obtain ⟨ls, hv, hs⟩ := literal_of_readValue hv
  dsimp only at h hv hs
  split at h
  · next u rest' hlt' hcomma =>
      simp only [Outcome.bind_eq_ok, Except.ok.injEq] at h
      obtain ⟨r', hr, rfl⟩ := h
      have : rest'.length < ts.length := Nat.lt_trans hlt' hlt
      obtain ⟨ls', hvs, hcount', hs'⟩ := listed_of_readListed hr
      refine ⟨_, .cons hv hvs, ?_, ?_⟩
      · simp only [Read.value_after, Read.value_map, List.length_cons]
        omega
      · simpa using hs.append ((spells_of_comma? hcomma).append hs')
  · simp only [Outcome.bind_eq_ok, Except.ok.injEq] at h
    obtain ⟨closed, hclosed, rfl⟩ := h
    exact ⟨_, .one hv, hcount, hs.append (gives_expectMark.1 ⟨closed.shorter, hclosed⟩)⟩
termination_by ts.length

theorem Items.gives_readListed : ∀ {ls : List Lexeme} {vs : List Value} {count : Nat}
    {ts rest : List Token}, Items limits 0 ls vs → count + vs.length ≤ limits.inList →
      Spells (ls ++ [.mark .closeParen]) ts rest → Gives (readListed limits count ts) vs rest
  | _, _, count, _, _, .one hv, hcount, hs => by
      obtain ⟨mid, hs, hend⟩ := hs.split
      obtain ⟨_, hread⟩ := hv.gives hs
      obtain ⟨_, hread'⟩ := gives_expectMark.2 hend
      have hcheck : checkCount limits (count + 1) = .ok () := checkCount_eq_ok.2 hcount
      rw [readListed]
      simp only [hread, hcheck, comma?_of_mark (by simp) hend, hread', Outcome.ok_bind]
      exact ⟨_, rfl⟩
  | _, _, count, _, _, .cons hv hvs, hcount, hs => by
      obtain ⟨mid, hs, hend⟩ := hs.split
      obtain ⟨mid₁, hs, htail⟩ := hs.split
      obtain ⟨mid₂, hcomma, htail⟩ := htail.uncons
      rw [List.length_cons, ← Nat.add_assoc, Nat.add_right_comm] at hcount
      obtain ⟨_, hread⟩ := hv.gives hs
      have hcheck : checkCount limits (count + 1) = .ok () := checkCount_eq_ok.2 (by omega)
      obtain ⟨_, hcomma⟩ := comma?_of_spells hcomma
      obtain ⟨_, hread'⟩ := hvs.gives_readListed hcount (htail.append hend)
      rw [readListed]
      simp only [hread, hcheck, hcomma, hread', Outcome.ok_bind]
      exact ⟨_, rfl⟩

theorem operand_of_readMembers {r : Read Token Value ts} (h : readMembers limits ts = .ok r) :
    ∃ ls, Operand limits .isIn ls r.value ∧ Spells ls ts r.rest := by
  unfold readMembers at h
  split at h
  · next source rest =>
      simp only [Outcome.map_eq_ok] at h
      obtain ⟨r', hr, rfl⟩ := h
      obtain ⟨ls, hvs, hcount, hs⟩ := listed_of_readListed hr
      exact ⟨_, .listed hvs (by simpa using hcount), .cons hs⟩
  · simp only [Outcome.bind_eq_ok] at h
    obtain ⟨⟨v, rest, hlt⟩, hv, h⟩ := h
    obtain ⟨ls, hv, hs⟩ := literal_of_readValue hv
    dsimp only at h hv hs
    split at h
    · simp only [Outcome.bind_eq_ok, checkCount_eq_ok, Except.ok.injEq] at h
      obtain ⟨u, hcount, rfl⟩ := h
      exact ⟨ls, .members hv hcount, hs⟩
    · cases h
      exact ⟨ls, .param hv, hs⟩
    · cases h

theorem operand_of_readBounds {r : Read Token Value ts} (h : readBounds limits ts = .ok r) :
    ∃ ls, Operand limits .between ls r.value ∧ Spells ls ts r.rest := by
  unfold readBounds at h
  simp only [Outcome.bind_eq_ok, Except.ok.injEq] at h
  obtain ⟨⟨low, rest, hlt⟩, hlow, ⟨u, rest', hlt'⟩, hand, high, hhigh, rfl⟩ := h
  obtain ⟨ls, hlow, hs⟩ := literal_of_readValue hlow
  have hs' := gives_expectKeyword.1 ⟨_, hand⟩
  obtain ⟨ls', hhigh, hs''⟩ := literal_of_readValue hhigh
  exact ⟨_, .bounds hlow hhigh, hs.append (hs'.append hs'')⟩

theorem operand_of_readOperand {c : Comparison} {r : Read Token Value ts}
    (h : readOperand limits c ts = .ok r) :
    ∃ ls, Operand limits c ls r.value ∧ Spells ls ts r.rest := by
  unfold readOperand at h
  split at h
  · exact operand_of_readMembers h
  · exact operand_of_readBounds h
  · next hin hbetween =>
      obtain ⟨ls, hv, hs⟩ := literal_of_readValue h
      exact ⟨ls, .value hin hbetween hv, hs⟩

theorem Operand.gives {c : Comparison} {ls : List Lexeme} {v : Value}
    (h : Operand limits c ls v) (hs : Spells ls ts rest) :
    Gives (readOperand limits c ts) v rest := by
  unfold readOperand
  have hparen : ∀ {ls ts v}, Literal limits 0 ls v → Spells ls ts rest →
      ∀ source rest', ts = ⟨.mark .openParen, source⟩ :: rest' → False := by
    rintro ls ts v hv hs source rest' rfl
    simpa using hv.opening.mark_opens hs
  cases h with
  | listed hvs hcount =>
      obtain ⟨source, ts, rfl, hs⟩ := hs
      rw [← Nat.zero_add (List.length _)] at hcount
      obtain ⟨_, hread⟩ := hvs.gives_readListed hcount hs
      simp only [readMembers, hread, Outcome.ok_map]
      exact ⟨_, rfl⟩
  | members hvs hcount =>
      obtain ⟨_, hread⟩ := hvs.gives hs
      have hcheck := (@checkCount_eq_ok limits _ ()).2 hcount
      simp only [readMembers.eq_2 _ _ (hparen hvs hs), hread, hcheck, Outcome.ok_bind]
      exact ⟨_, rfl⟩
  | param hv =>
      obtain ⟨_, hread⟩ := hv.gives hs
      simp only [readMembers.eq_2 _ _ (hparen hv hs), hread, Outcome.ok_bind]
      exact ⟨_, rfl⟩
  | bounds hlow hhigh =>
      obtain ⟨mid, hs, hend⟩ := hs.split
      obtain ⟨mid', hand, hs'⟩ := hend.uncons
      obtain ⟨_, hread⟩ := hlow.gives hs
      obtain ⟨_, hand⟩ := gives_expectKeyword.2 hand
      obtain ⟨_, hread'⟩ := hhigh.gives hs'
      simp only [readBounds, hread, hand, hread', Outcome.ok_bind]
      exact ⟨_, rfl⟩
  | value hin hbetween hv =>
      obtain ⟨_, hread⟩ := hv.gives hs
      cases c <;> first | exact absurd rfl hin | exact absurd rfl hbetween | exact ⟨_, hread⟩

theorem operator_ne_not (c : Comparison) : operator c ≠ .word "not" := by
  cases c <;> simp [operator]

theorem term_of_readCompare {depth : Nat} {r : Read Token Clause ts}
    (hfield : ∀ rest, ¬ Spells [.word "not"] ts rest) (h : readCompare limits ts = .ok r) :
    ∃ ls, Term limits depth ls r.value ∧ Spells ls ts r.rest := by
  unfold readCompare at h
  simp only [Outcome.bind_eq_ok] at h
  obtain ⟨⟨field, rest₁, hlt₁⟩, hword, ⟨c, rest₃, hlt₃⟩, hc, operand, hv, h⟩ := h
  have hs₁ := (gives_expectWord "field name").1 ⟨_, hword⟩
  have hne : field ≠ "not" := by
    rintro rfl
    exact hfield _ hs₁
  have hs₃ := gives_readComparison.1 ⟨_, hc⟩
  obtain ⟨ls, hv, hs₄⟩ := operand_of_readOperand hv
  dsimp only at h hs₁ hs₃ hs₄
  cases hnegated : (skipKeyword "not" rest₁).value with
  | false =>
      rw [skipKeyword_rest_of_false hnegated] at hs₃
      simp only [hnegated, Bool.false_and, Bool.false_eq_true, if_false, Except.ok.injEq] at h
      subst h
      exact ⟨_, .compare hne hv, hs₁.append (hs₃.append hs₄)⟩
  | true =>
      have hs₂ := spells_of_skipKeyword hnegated
      cases hmay : mayNegate c with
      | false => simp [hnegated, hmay] at h
      | true =>
          simp only [hnegated, hmay, Bool.not_true, Bool.and_false, Bool.false_eq_true, if_false,
            if_true, Except.ok.injEq] at h
          subst h
          exact ⟨_, .negated hne hmay hv, hs₁.append (hs₂.append (hs₃.append hs₄))⟩

theorem Operand.gives_readCompare {field : String} {c : Comparison} {ls : List Lexeme} {v : Value}
    (h : Operand limits c ls v) (hs : Spells (.word field :: operator c :: ls) ts rest) :
    Gives (readCompare limits ts) (.compare field c v) rest := by
  obtain ⟨mid₁, hword, hs⟩ := hs.uncons
  obtain ⟨mid₂, hc, hs⟩ := hs.uncons
  have hnot : ∀ rest, ¬ Spells [.word "not"] mid₁ rest := by
    rintro rest ⟨source, ts, rfl, -⟩
    obtain ⟨source', ts', heq, -⟩ := hc
    injection heq with heq
    injection heq with heq
    exact operator_ne_not c heq.symm
  have hskip := skipKeyword_of_not_spells hnot
  have hrest : (skipKeyword "not" mid₁).rest = mid₁ := by rw [hskip]; rfl
  have hvalue : (skipKeyword "not" mid₁).value = false := by rw [hskip]; rfl
  rw [← hrest] at hc
  obtain ⟨_, hword⟩ := (gives_expectWord "field name").2 hword
  obtain ⟨_, hc⟩ := gives_readComparison.2 hc
  obtain ⟨_, hread⟩ := h.gives hs
  rw [readCompare]
  simp only [hword, hvalue, hc, hread, Bool.false_and, Bool.false_eq_true, if_false,
    Outcome.ok_bind]
  exact ⟨_, rfl⟩

theorem Operand.gives_readCompare_not {field : String} {c : Comparison} {ls : List Lexeme}
    {v : Value} (h : Operand limits c ls v) (hmay : mayNegate c = true)
    (hs : Spells (.word field :: .word "not" :: operator c :: ls) ts rest) :
    Gives (readCompare limits ts) (.not (.compare field c v)) rest := by
  obtain ⟨mid₁, hword, hs⟩ := hs.uncons
  obtain ⟨mid₂, hnot, hs⟩ := hs.uncons
  obtain ⟨mid₃, hc, hs⟩ := hs.uncons
  obtain ⟨_, hskip⟩ := skipKeyword_of_spells hnot
  have hrest : (skipKeyword "not" mid₁).rest = mid₂ := by rw [hskip]
  have hvalue : (skipKeyword "not" mid₁).value = true := by rw [hskip]
  rw [← hrest] at hc
  obtain ⟨_, hword⟩ := (gives_expectWord "field name").2 hword
  obtain ⟨_, hc⟩ := gives_readComparison.2 hc
  obtain ⟨_, hread⟩ := h.gives hs
  rw [readCompare]
  simp only [hword, hvalue, hc, hread, hmay, Bool.not_true, Bool.and_false, Bool.false_eq_true,
    if_false, if_true, Outcome.ok_bind]
  exact ⟨_, rfl⟩

theorem readTerm_of_field {depth : Nat} {field : String} {ls : List Lexeme} (hfield : field ≠ "not")
    (hs : Spells (.word field :: ls) ts rest) :
    readTerm limits depth ts = readCompare limits ts := by
  obtain ⟨source, ts, rfl, -⟩ := hs
  rw [readTerm, if_neg hfield]

mutual

theorem chain_of_readChain {depth : Nat} {ts : List Token}
    {r : Read Token (Clause × List (Connective × Clause)) ts}
    (h : readChain limits depth ts = .ok r) :
    connective? r.rest = none ∧
      ∃ ls, Chain limits depth ls r.value.1 r.value.2 ∧ Spells ls ts r.rest := by
  unfold readChain at h
  simp only [Outcome.bind_eq_ok] at h
  obtain ⟨⟨first, rest, hlt⟩, hfirst, h⟩ := h
  obtain ⟨ls, hfirst, hs⟩ := term_of_readTerm hfirst
  dsimp only at h hfirst hs
  split at h
  · next k rest' hlt' hk =>
      simp only [Outcome.bind_eq_ok, Except.ok.injEq] at h
      obtain ⟨r', hr, rfl⟩ := h
      have : rest'.length < ts.length := Nat.lt_trans hlt' hlt
      obtain ⟨hnone, ls', hmore, hs'⟩ := chain_of_readChain hr
      exact ⟨hnone, _, .cons hfirst hmore, hs.append ((spells_of_connective? hk).append hs')⟩
  · next hnone =>
      cases h
      exact ⟨hnone, ls, .one hfirst, hs⟩
termination_by (ts.length, 1)

theorem term_of_readTerm {depth : Nat} {ts : List Token} {r : Read Token Clause ts}
    (h : readTerm limits depth ts = .ok r) :
    ∃ ls, Term limits depth ls r.value ∧ Spells ls ts r.rest := by
  unfold readTerm at h
  split at h
  · next word source rest =>
      split at h
      · next hnot =>
          subst hnot
          simp only [Outcome.bind_eq_ok, deeper_eq_ok, Except.ok.injEq] at h
          obtain ⟨_, ⟨hdepth, rfl⟩, r', hr, rfl⟩ := h
          obtain ⟨ls, hc, hs⟩ := term_of_readTerm hr
          exact ⟨_, .not hdepth hc, .cons hs⟩
      · next hword =>
          refine term_of_readCompare ?_ h
          rintro _ ⟨source', rest', heq, -⟩
          cases heq
          exact hword rfl
  · next source rest =>
      simp only [Outcome.bind_eq_ok, deeper_eq_ok, Except.ok.injEq] at h
      obtain ⟨_, ⟨hdepth, rfl⟩, ⟨⟨first, more⟩, rest', hlt⟩, hchain, closed, hclosed, rfl⟩ := h
      obtain ⟨-, ls, hc, hs⟩ := chain_of_readChain hchain
      exact ⟨_, .group hdepth hc, .cons (hs.append (gives_expectMark.1 ⟨closed.shorter, hclosed⟩))⟩
  · next hword _ =>
      refine term_of_readCompare ?_ h
      rintro _ ⟨source', rest', heq, -⟩
      exact hword _ _ _ heq
termination_by (ts.length, 0)

end

mutual

theorem Term.gives : ∀ {depth : Nat} {ls : List Lexeme} {c : Clause} {ts rest : List Token},
    Term limits depth ls c → Spells ls ts rest → Gives (readTerm limits depth ts) c rest
  | _, _, _, _, _, .not hdepth hc, ⟨source, _, rfl, hs⟩ => by
      obtain ⟨_, hread⟩ := hc.gives hs
      rw [readTerm]
      simp only [if_true, deeper_of_lt .conditionDepth hdepth, hread, Outcome.ok_bind]
      exact ⟨_, rfl⟩
  | _, _, _, _, _, .group hdepth hc, ⟨source, _, rfl, hs⟩ => by
      obtain ⟨mid, hs', hend⟩ := Spells.split hs
      obtain ⟨_, hread⟩ := hc.gives hs' (connective?_of_mark hend)
      obtain ⟨_, hread'⟩ := gives_expectMark.2 hend
      rw [readTerm]
      simp only [deeper_of_lt .conditionDepth hdepth, hread, hread', Outcome.ok_bind]
      exact ⟨_, rfl⟩
  | _, _, _, _, _, .compare hfield hv, hs => by
      rw [readTerm_of_field hfield hs]
      exact hv.gives_readCompare hs
  | _, _, _, _, _, .negated hfield hmay hv, hs => by
      rw [readTerm_of_field hfield hs]
      exact hv.gives_readCompare_not hmay hs

theorem Chain.gives : ∀ {depth : Nat} {ls : List Lexeme} {first : Clause}
    {more : List (Connective × Clause)} {ts rest : List Token}, Chain limits depth ls first more →
      Spells ls ts rest → connective? rest = none →
        Gives (readChain limits depth ts) (first, more) rest
  | _, _, _, _, _, _, .one hc, hs, hnone => by
      obtain ⟨_, hread⟩ := hc.gives hs
      rw [readChain]
      simp only [hread, hnone, Outcome.ok_bind]
      exact ⟨_, rfl⟩
  | _, _, _, _, _, _, .cons hc hmore, hs, hnone => by
      obtain ⟨mid, hs, hend⟩ := hs.split
      obtain ⟨mid', hk, hend⟩ := hend.uncons
      obtain ⟨_, hread⟩ := hc.gives hs
      obtain ⟨_, hk⟩ := connective?_of_spells hk
      obtain ⟨_, hread'⟩ := hmore.gives hend hnone
      rw [readChain]
      simp only [hread, hk, hread', Outcome.ok_bind]
      exact ⟨_, rfl⟩

end

/-- The reader of clauses gives a clause exactly where the grammar spells a chain of its terms and
no connective follows. -/
theorem gives_readClause_iff {c : Clause} :
    Gives (readClause limits ts) c rest ↔ connective? rest = none ∧
      ∃ ls first more, Chain limits 0 ls first more ∧ c = chainOf first more ∧
        Spells ls ts rest := by
  unfold readClause
  constructor
  · rintro ⟨hlt, h⟩
    simp only [Outcome.map_eq_ok] at h
    obtain ⟨r, hr, heq⟩ := h
    obtain ⟨hnone, ls, hc, hs⟩ := chain_of_readChain hr
    cases heq
    exact ⟨hnone, ls, _, _, hc, rfl, hs⟩
  · rintro ⟨hnone, ls, first, more, hc, rfl, hs⟩
    obtain ⟨_, hread⟩ := hc.gives hs hnone
    simp only [hread, Outcome.ok_map]
    exact ⟨_, rfl⟩

end RecordQuery.Written
