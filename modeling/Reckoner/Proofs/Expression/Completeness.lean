import Reckoner.Proofs.Expression.Reader

/-!
# Every phrase is read

Where a phrase stands in front of a text that it cannot go on with, and its parentheses fit under the nesting
limit, the reader of its level gives the tree of the phrase and steps behind it. The readers are taken one by
one, each under the assumption that the reader of sums inside parentheses does its part.
-/

namespace Reckoner.Expression

set_option autoImplicit false

/--
With the given number of levels the reader reads every phrase that it meets. A reader has enough levels when
they reach beyond the nesting limit from where it stands.
-/
def Completes (levels : Nat) (l : Level) (read : Reader Tree) : Prop :=
  ∀ (p : Phrase Empty l) (c : Cursor) (rest : List Char),
    c.rest = p.text ++ rest → l.Stops rest → nestingLimit < levels + c.depth →
      c.depth + p.nesting ≤ nestingLimit → read c = .ok (p.treeAt c.position, c.skip p.text.length)

variable {levels : Nat} {inner : Reader Tree}

/-! ## Atoms -/

theorem readNumber_complete (n : Numeral) {c : Cursor} {rest : List Char} (hrest : c.rest = n.text ++ rest)
    (hstop : NoNumeral rest) : readNumber trees c = .ok (.number n.value, c.skip n.text.length) := by
  obtain ⟨d, more, htext, -⟩ := n.text_cons
  have hempty : n.text.isEmpty = false := by rw [htext]; rfl
  have hvalue : Literal.mantissa? n.text = some n.value :=
    (mantissa?_eq_some_iff n.all_numeral n.value).mpr ⟨n, rfl, rfl⟩
  simp [readNumber, hrest, takeWhile_numeral n hstop, hempty, hvalue, trees]

theorem readOperand_numeral {α : Type} (m : Meaning α) {c : Cursor} {d : Char} {rest : List Char}
    (hrest : c.rest = d :: rest) (hd : isNumeral d = true) : readOperand m c = readNumber m c := by
  unfold readOperand
  rw [hrest]
  split
  · next h =>
    rw [(List.cons.inj h).1] at hd
    contradiction
  · next h =>
    rw [(List.cons.inj h).1] at hd
    contradiction
  · next h =>
    rw [(List.cons.inj h).1] at hd
    contradiction
  · rfl

theorem readOperand_constant (k : Constant) {c : Cursor} {rest : List Char} (hrest : c.rest = k.word ++ rest)
    (hstop : NoNumeral rest) : readOperand trees c = .ok (.constant k, c.skip k.word.length) := by
  cases k with
  | pi => simp [readOperand, hrest, Constant.word, trees]
  | e =>
    cases rest with
    | nil => simp [readOperand, hrest, Constant.word, trees]
    | cons d rest =>
      have hd : Literal.isDigit d = false := by
        have := hstop d rfl
        simp_all [isNumeral]
      simp [readOperand, hrest, Constant.word, trees, hd]

theorem readParens_complete (hinner : Completes levels (.chain .sum) inner) (fault : Fault) (p : Sentence) {c : Cursor}
    {rest : List Char} (hrest : c.rest = '(' :: p.text ++ ')' :: rest) (hlevels : nestingLimit < levels + 1 + c.depth)
    (hdepth : c.depth + (p.nesting + 1) ≤ nestingLimit) :
    readParens fault inner c = .ok (p.treeAt (c.position + 1), c.skip (p.text.length + 2)) := by
  have hopen : openParen c = .ok c.opened := openParen_of_lt (by omega)
  have hopened : c.opened.rest = p.text ++ ')' :: rest := Cursor.rest_opened hrest
  have hread : inner c.opened = .ok (p.treeAt (c.position + 1), c.opened.skip p.text.length) :=
    hinner p c.opened (')' :: rest) hopened (stops_close _ _) (show nestingLimit < levels + (c.depth + 1) by omega)
      (show c.depth + 1 + p.nesting ≤ nestingLimit by omega)
  have hclose := closeParen_of_cons fault (Cursor.rest_skip hopened)
  simp only [readParens, hopen, hread, hclose, Except.bind, Except.map, Cursor.closed_skip_opened]

theorem readAtom_complete (hinner : Completes levels (.chain .sum) inner) :
    Completes (levels + 1) .atom (readAtom trees inner) := by
  intro p c rest hrest hstop hlevels hdepth
  cases p with
  | group p =>
    have hrest' : c.rest = '(' :: p.text ++ ')' :: rest := by simpa [Phrase.text] using hrest
    have hread := readParens_complete hinner .unclosedGroup p hrest' hlevels hdepth
    rw [readAtom_group trees inner hrest', readGroup_eq, hread]
    simp [Phrase.text, Phrase.tree]
  | call f name p =>
    have hrest' : c.rest = name.text ++ ('(' :: p.text ++ ')' :: rest) := by simpa [Phrase.text] using hrest
    have hskip : (c.skip f.name.toList.length).rest = '(' :: p.text ++ ')' :: rest :=
      name.length_text ▸ Cursor.rest_skip hrest'
    have hread := readParens_complete hinner (.unclosedCall f) p hskip hlevels hdepth
    have hmatch : Function.match? c.rest = some f := hrest' ▸ match?_spelling name _
    have hhead : c.rest.head? ≠ some '(' := by
      rw [hrest']
      exact name.head_append_ne _
    have hlength : f.name.toList.length + (p.text.length + 2) = (Phrase.call f name p).text.length := by
      simp [Phrase.text, name.length_text]
    rw [readAtom_of_head trees inner hhead, hmatch]
    simp only [readCall_of_cons trees inner f hskip, hread, Except.bind, Cursor.skip_skip, hlength]
    simp [settle, trees, Phrase.tree, name.length_text, Cursor.skip]
  | constant k =>
    have hread := readOperand_constant k hrest hstop
    have hhead : c.rest.head? ≠ some '(' := by
      rw [hrest]
      cases k <;> simp [Phrase.text, Constant.word]
    have hmatch : Function.match? c.rest = none := by
      rw [hrest]
      cases k <;> exact match?_cons_eq_none (by decide) _
    rw [readAtom_of_head trees inner hhead, hmatch]
    exact hread
  | number n =>
    obtain ⟨d, more, htext, hd⟩ := n.text_cons
    have hrest' : c.rest = d :: (more ++ rest) := by simpa [Phrase.text, htext] using hrest
    have hhead : c.rest.head? ≠ some '(' := by
      rw [hrest']
      rintro hsome
      obtain rfl := Option.some.inj hsome
      contradiction
    have hmatch : Function.match? c.rest = none := by
      rw [hrest']
      exact match?_cons_eq_none (not_initial_of_isNumeral hd) _
    rw [readAtom_of_head trees inner hhead, hmatch]
    exact (readOperand_numeral trees hrest' hd).trans (readNumber_complete n hrest hstop)
  | unknown v => exact v.elim

/-! ## Signs and powers -/

theorem readSigned_complete (hinner : Completes levels (.chain .sum) inner) :
    Completes (levels + 1) .signed (readSigned trees inner) := by
  intro p c rest hrest hstop hlevels hdepth
  have hatom := readAtom_complete hinner
  cases p with
  | bare p =>
    obtain ⟨hminus, hplus⟩ := p.atom_head_append_ne rest
    have hrest' : c.rest = p.text ++ rest := hrest
    rw [← hrest'] at hminus hplus
    rw [readSigned_of_head trees inner hminus hplus]
    exact hatom p c rest hrest hstop hlevels hdepth
  | plus p =>
    have hread := hatom p (c.skip 1) rest (Cursor.rest_skip_one hrest) hstop hlevels hdepth
    rw [Cursor.skip_skip, Nat.add_comm] at hread
    rw [readSigned_plus trees inner hrest, hread]
    rfl
  | minus p =>
    have hread := hatom p (c.skip 1) rest (Cursor.rest_skip_one hrest) hstop hlevels hdepth
    rw [Cursor.skip_skip, Nat.add_comm] at hread
    rw [readSigned_minus trees inner hrest, hread]
    rfl

theorem powerTail_base {base : Tree} {c : Cursor} (h : c.rest.head? ≠ some '^') :
    powerTail trees inner base c = .ok (base, c) :=
  if_neg h

theorem readPower_complete (hinner : Completes levels (.chain .sum) inner) :
    Completes (levels + 1) .power (readPower trees inner) := by
  intro p c rest hrest ⟨hcaret, hnumeral⟩ hlevels hdepth
  have hsigned := readSigned_complete hinner
  rw [readPower_eq]
  cases p with
  | base b =>
    have hread := hsigned b c rest hrest hnumeral hlevels hdepth
    have hskip := Cursor.rest_skip hrest
    rw [hread]
    exact powerTail_base (hskip ▸ hcaret)
  | raise b exponent =>
    have hrest' : c.rest = b.text ++ ('^' :: exponent.text ++ rest) := by simpa [Phrase.text] using hrest
    have hdepth' : c.depth + max b.nesting exponent.nesting ≤ nestingLimit := hdepth
    have hread := hsigned b c _ hrest' (stops_caret _) hlevels (by omega)
    have hskip := Cursor.rest_skip hrest'
    have hread' := hsigned exponent ((c.skip b.text.length).skip 1) rest (Cursor.rest_skip_one hskip) hnumeral
      hlevels (show c.depth + exponent.nesting ≤ nestingLimit by omega)
    have htail : powerTail trees inner (b.treeAt c.position) (c.skip b.text.length) =
        (readSigned trees inner ((c.skip b.text.length).skip 1)).map fun r =>
          (trees.power (b.treeAt c.position) r.1, r.2) :=
      if_pos (by rw [hskip]; rfl)
    rw [hread]
    change powerTail trees inner (b.treeAt c.position) (c.skip b.text.length) = _
    rw [htail, hread']
    simp only [Except.map, Cursor.skip_skip, Phrase.text, List.length_append, List.length_cons]
    rw [show b.text.length + 1 + exponent.text.length = b.text.length + (exponent.text.length + 1) by omega]
    rfl

/-! ## Chains -/

/--
In front of a phrase of a chain the reader comes to stand behind the phrase, with its tree as the left operand
and budget for what follows.
-/
theorem chainOver_reaches {rank : Rank} {operand : Reader Tree} (hoperand : Completes levels rank.operand operand)
    (p : Phrase Empty (.chain rank)) (c : Cursor) (rest : List Char) (hrest : c.rest = p.text ++ rest)
    (hstop : rank.operand.Stops rest) (hlevels : nestingLimit < levels + c.depth)
    (hdepth : c.depth + p.nesting ≤ nestingLimit) :
    ∃ budget : List Char, rest.length ≤ budget.length ∧
      chainOver trees rank operand c =
        readChain trees rank.operator? operand budget (p.treeAt c.position) (c.skip p.text.length) := by
  induction p using Phrase.chainInduction generalizing rest with
  | single p =>
    have hread := hoperand p c rest hrest hstop hlevels hdepth
    have hskip : (c.skip p.text.length).rest = rest := Cursor.rest_skip hrest
    refine ⟨rest, Nat.le_refl _, ?_⟩
    simp only [chainOver, hread, Except.bind, hskip]
    rfl
  | extend left op belongs right ih =>
    have hrest' : c.rest = left.text ++ (op.symbol :: right.text ++ rest) := by simpa [Phrase.text] using hrest
    have hdepth' : c.depth + max left.nesting right.nesting ≤ nestingLimit := hdepth
    obtain ⟨budget, hbudget, hchain⟩ := ih _ hrest' (Operator.stops_symbol belongs _) (by omega)
    have hskip := Cursor.rest_skip hrest'
    cases budget with
    | nil => simp at hbudget
    | cons d budget =>
      have hoperator : rank.operator? (c.skip left.text.length).rest = some op := by
        rw [hskip]
        exact Operator.operator?_symbol belongs (by simp [right.text_ne_nil])
      have hread := hoperand right ((c.skip left.text.length).skip 1) rest (Cursor.rest_skip_one hskip) hstop hlevels
        (show c.depth + right.nesting ≤ nestingLimit by omega)
      have hlength : left.text.length + 1 + right.text.length = (left.text ++ op.symbol :: right.text).length := by
        simp only [List.length_append, List.length_cons]
        omega
      refine ⟨budget, ?_, ?_⟩
      · simp only [List.length_append, List.length_cons] at hbudget
        omega
      · rw [hchain, readChain_of_some trees hoperator, hread, Cursor.skip_skip, Cursor.skip_skip, hlength]
        rfl

theorem chainOver_complete {rank : Rank} {operand : Reader Tree}
    (hoperand : Completes levels rank.operand operand) :
    Completes levels (.chain rank) (chainOver trees rank operand) := by
  intro p c rest hrest hstop hlevels hdepth
  obtain ⟨hnone, hoperandStop⟩ := Level.stops_chain hstop
  obtain ⟨budget, -, hchain⟩ := chainOver_reaches hoperand p c rest hrest hoperandStop hlevels hdepth
  rw [hchain]
  exact readChain_of_none trees (by rw [Cursor.rest_skip hrest]; exact hnone) _ _ _

/-! ## Whole texts -/

theorem readSum_complete (levels : Nat) : Completes levels (.chain .sum) (readSum trees levels) := by
  induction levels with
  | zero =>
    intro p c rest _ _ hlevels hdepth
    omega
  | succ levels ih => exact chainOver_complete (chainOver_complete (readPower_complete ih))

/-- The recognizer accepts every sentence within the nesting limit, and it gives its tree. -/
theorem recognize_text (p : Sentence) (h : p.nesting ≤ nestingLimit) :
    recognize p.text = .ok (p.treeAt 0, ⟨[], p.text.length, 0⟩) := by
  have hread := readSum_complete (nestingLimit + 1) p (.start p.text) [] (by simp [Cursor.start])
    (stops_nil _) (by simp [Cursor.start]) (by simpa [Cursor.start] using h)
  have hskip : (Cursor.start p.text).skip p.text.length = ⟨[], p.text.length, 0⟩ := by
    simp [Cursor.start, Cursor.skip]
  rw [hskip] at hread
  simp only [recognize, parse, parseWith, hread, bind, Except.bind, pure, Except.pure]
  rfl

end Reckoner.Expression
