import Reckoner.Proofs.Expression.Word

/-!
# Cursors, parentheses and chains

What one step of a reader does to a cursor, where a phrase may stop, and the common form of the two readers
of chains.
-/

namespace Reckoner.Expression

set_option autoImplicit false

/-! ## Cursors -/

namespace Cursor

theorem skip_skip (c : Cursor) (a b : Nat) : (c.skip a).skip b = c.skip (a + b) := by
  simp [skip, Nat.add_assoc]

theorem rest_skip {c : Cursor} {front rest : List Char} (h : c.rest = front ++ rest) :
    (c.skip front.length).rest = rest := by
  simp [skip, h]

theorem rest_skip_one {c : Cursor} {d : Char} {rest : List Char} (h : c.rest = d :: rest) :
    (c.skip 1).rest = rest := by
  simp [skip, h]

theorem rest_opened {c : Cursor} {d : Char} {rest : List Char} (h : c.rest = d :: rest) :
    c.opened.rest = rest := by
  simp [opened, skip, h]

/-- From behind an opening parenthesis over a text and over the closing parenthesis. -/
theorem closed_skip_opened (c : Cursor) (count : Nat) : (c.opened.skip count).closed = c.skip (count + 2) := by
  have hrest : 1 + count + 1 = count + 2 := by omega
  have hposition : c.position + 1 + count + 1 = c.position + (count + 2) := by omega
  simp only [opened, closed, skip, List.drop_drop, Nat.add_sub_cancel, hrest, hposition]

end Cursor

/-! ## Parentheses -/

theorem openParen_of_lt {c : Cursor} (h : c.depth < nestingLimit) : openParen c = .ok c.opened :=
  if_neg (by omega)

theorem openParen_of_le {c : Cursor} (h : nestingLimit ≤ c.depth) : openParen c = refuse .tooDeep c :=
  if_pos h

theorem closeParen_of_cons (fault : Fault) {c : Cursor} {rest : List Char} (h : c.rest = ')' :: rest) :
    closeParen fault c = .ok c.closed := by
  simp only [closeParen, h]

theorem closeParen_of_head (fault : Fault) {c : Cursor} (h : c.rest.head? ≠ some ')') :
    closeParen fault c = refuse fault c := by
  unfold closeParen
  split
  · next hrest =>
    rw [hrest] at h
    exact absurd rfl h
  · rfl

section
variable {α : Type} (m : Meaning α)

/-- Reads a sum in parentheses; a missing closing parenthesis is the given fault. -/
def readParens (fault : Fault) (inner : Reader α) : Reader α := fun c =>
  (openParen c).bind fun c₁ =>
    (inner c₁).bind fun r => (closeParen fault r.2).map fun c₂ => (r.1, c₂)

theorem readGroup_eq (inner : Reader α) (c : Cursor) : readGroup inner c = readParens .unclosedGroup inner c := by
  unfold readGroup readParens
  cases openParen c with
  | error h => rfl
  | ok c₁ =>
    simp only [bind, Except.bind]
    cases inner c₁ with
    | error h => rfl
    | ok r =>
      cases hclose : closeParen .unclosedGroup r.2 <;> simp [hclose, Except.map, pure, Except.pure]

theorem readCall_of_cons (inner : Reader α) (f : Function) {c : Cursor} {rest : List Char}
    (h : (c.skip f.name.toList.length).rest = '(' :: rest) :
    readCall m inner f c =
      (readParens (.unclosedCall f) inner (c.skip f.name.toList.length)).bind fun r => settle r.2 (m.call f r.1) := by
  simp only [readCall, h, readParens]
  cases openParen (c.skip f.name.toList.length) with
  | error h => rfl
  | ok c₁ =>
    simp only [bind, Except.bind]
    cases inner c₁ with
    | error h => rfl
    | ok r =>
      cases hclose : closeParen (.unclosedCall f) r.2 <;> simp [hclose, Except.map]

theorem readCall_of_head (inner : Reader α) (f : Function) {c : Cursor}
    (h : (c.skip f.name.toList.length).rest.head? ≠ some '(') :
    readCall m inner f c = refuse (.unopenedCall f) (c.skip f.name.toList.length) := by
  unfold readCall
  simp only
  split
  · next hrest =>
    rw [hrest] at h
    exact absurd rfl h
  · rfl

/-! ## Atoms -/

theorem readAtom_group (inner : Reader α) {c : Cursor} {rest : List Char} (h : c.rest = '(' :: rest) :
    readAtom m inner c = readGroup inner c := by
  simp only [readAtom, h]

theorem readAtom_of_head (inner : Reader α) {c : Cursor} (h : c.rest.head? ≠ some '(') :
    readAtom m inner c =
      match Function.match? c.rest with
      | some f => readCall m inner f c
      | none => readOperand m c := by
  unfold readAtom
  split
  · next hrest =>
    rw [hrest] at h
    exact absurd rfl h
  · rfl

/-! ## Signs and powers -/

theorem readSigned_minus (inner : Reader α) {c : Cursor} {rest : List Char} (h : c.rest = '-' :: rest) :
    readSigned m inner c = (readAtom m inner (c.skip 1)).map fun r => (m.negate r.1, r.2) := by
  simp only [readSigned, h]
  cases readAtom m inner (c.skip 1) <;> rfl

theorem readSigned_plus (inner : Reader α) {c : Cursor} {rest : List Char} (h : c.rest = '+' :: rest) :
    readSigned m inner c = readAtom m inner (c.skip 1) := by
  simp only [readSigned, h]

theorem readSigned_of_head (inner : Reader α) {c : Cursor} (hminus : c.rest.head? ≠ some '-')
    (hplus : c.rest.head? ≠ some '+') : readSigned m inner c = readAtom m inner c := by
  unfold readSigned
  split
  · next h =>
    rw [h] at hminus
    exact absurd rfl hminus
  · next h =>
    rw [h] at hplus
    exact absurd rfl hplus
  · rfl

/-- Goes on behind a base. -/
def powerTail (inner : Reader α) (base : α) : Reader α := fun c =>
  if c.rest.head? = some '^' then
    (readSigned m inner (c.skip 1)).map fun r => (m.power base r.1, r.2)
  else .ok (base, c)

theorem readPower_eq (inner : Reader α) (c : Cursor) :
    readPower m inner c = (readSigned m inner c).bind fun r => powerTail m inner r.1 r.2 := by
  unfold readPower powerTail
  cases readSigned m inner c with
  | error h => rfl
  | ok r =>
    simp only [bind, Except.bind, pure, Except.pure]
    split
    · next h =>
      rw [if_pos (by rw [h]; rfl)]
      cases readSigned m inner (r.2.skip 1) <;> rfl
    · next h =>
      rw [if_neg]
      intro hhead
      obtain ⟨rest, hrest⟩ := List.head?_eq_some_iff.mp hhead
      exact h rest hrest

/-! ## Chains -/

/-- Reads a chain of operands and operators of a rank. -/
def chainOver (rank : Rank) (operand : Reader α) : Reader α := fun c =>
  (operand c).bind fun r => readChain m rank.operator? operand r.2.rest r.1 r.2

theorem readChain_of_none {operator? : List Char → Option Operator} {c : Cursor} (h : operator? c.rest = none)
    (operand : Reader α) (budget : List Char) (left : α) :
    readChain m operator? operand budget left c = .ok (left, c) := by
  cases budget with
  | nil => rfl
  | cons d budget => rw [readChain, h]

theorem readChain_of_some {operator? : List Char → Option Operator} {c : Cursor} {op : Operator}
    (h : operator? c.rest = some op) (operand : Reader α) (d : Char) (budget : List Char) (left : α) :
    readChain m operator? operand (d :: budget) left c =
      (operand (c.skip 1)).bind fun r =>
        (settle r.2 (m.binary op c.position left r.1)).bind fun r => readChain m operator? operand budget r.1 r.2 := by
  rw [readChain, h]
  rfl

/-- Where a sum begins nothing comes before its first signed atom, so the sum halts with it. -/
theorem readSum_of_readSigned {levels : Nat} {c : Cursor} {h : Halt}
    (hsigned : readSigned m (readSum m levels) c = .error h) : readSum m (levels + 1) c = .error h := by
  change chainOver m .sum (chainOver m .product (readPower m (readSum m levels))) c = .error h
  rw [chainOver, chainOver, readPower_eq, hsigned]
  rfl

end

/-! ## Where phrases stop -/

/-- No digit and no point comes next. -/
def NoNumeral (rest : List Char) : Prop :=
  ∀ c ∈ rest.head?, isNumeral c = false

theorem noNumeral_nil : NoNumeral [] := by simp [NoNumeral]

theorem noNumeral_cons {c : Char} (h : isNumeral c = false) (rest : List Char) : NoNumeral (c :: rest) := by
  intro d hd
  obtain rfl : c = d := Option.some.inj hd
  exact h

theorem Operator.isNumeral_symbol (op : Operator) : isNumeral op.symbol = false := by
  cases op <;> rfl

theorem takeWhile_numeral (n : Numeral) {rest : List Char} (h : NoNumeral rest) :
    (n.text ++ rest).takeWhile isNumeral = n.text := by
  rw [List.takeWhile_append_of_pos n.all_numeral]
  cases rest with
  | nil => exact List.append_nil _
  | cons c rest => rw [List.takeWhile_cons_of_neg (by simp [h c rfl]), List.append_nil]

/-- A phrase of the level cannot go on with this text. -/
def Level.Stops : Level → List Char → Prop
  | .atom, rest => NoNumeral rest
  | .signed, rest => NoNumeral rest
  | .power, rest => rest.head? ≠ some '^' ∧ NoNumeral rest
  | .chain .product, rest => productOperator? rest = none ∧ rest.head? ≠ some '^' ∧ NoNumeral rest
  | .chain .sum, rest =>
    sumOperator? rest = none ∧ productOperator? rest = none ∧ rest.head? ≠ some '^' ∧ NoNumeral rest

theorem Level.stops_chain {rank : Rank} {rest : List Char} (h : (Level.chain rank).Stops rest) :
    rank.operator? rest = none ∧ rank.operand.Stops rest := by
  cases rank <;> exact h

theorem stops_nil (l : Level) : l.Stops [] := by
  cases l with
  | chain rank => cases rank <;> simp [Level.Stops, sumOperator?, productOperator?, noNumeral_nil]
  | power => simp [Level.Stops, noNumeral_nil]
  | signed => exact noNumeral_nil
  | atom => exact noNumeral_nil

theorem stops_close (l : Level) (rest : List Char) : l.Stops (')' :: rest) := by
  have hnumeral : NoNumeral (')' :: rest) := noNumeral_cons rfl rest
  cases l with
  | chain rank => cases rank <;> simp [Level.Stops, sumOperator?, productOperator?, hnumeral]
  | power => simp [Level.Stops, hnumeral]
  | signed => exact hnumeral
  | atom => exact hnumeral

theorem stops_caret (rest : List Char) : Level.signed.Stops ('^' :: rest) :=
  noNumeral_cons rfl rest

theorem Operator.stops_symbol {op : Operator} {rank : Rank} (belongs : op.rank = rank) (rest : List Char) :
    rank.operand.Stops (op.symbol :: rest) := by
  subst belongs
  have hnumeral : NoNumeral (op.symbol :: rest) := noNumeral_cons op.isNumeral_symbol rest
  cases op <;> simp_all [Operator.rank, Rank.operand, Operator.symbol, Level.Stops, productOperator?]

theorem Operator.operator?_symbol {op : Operator} {rank : Rank} (belongs : op.rank = rank) {rest : List Char}
    (h : rest ≠ []) : rank.operator? (op.symbol :: rest) = some op := by
  subst belongs
  cases rest with
  | nil => contradiction
  | cons c rest => cases op <;> rfl

/-- Where a reader of operators finds one, the text starts with its symbol and does not end behind it. -/
theorem Rank.operator?_eq_some {rank : Rank} {text : List Char} {op : Operator}
    (h : rank.operator? text = some op) : op.rank = rank ∧ ∃ rest, text = op.symbol :: rest := by
  cases rank with
  | sum =>
    change sumOperator? text = some op at h
    unfold sumOperator? at h
    split at h
    · obtain rfl := Option.some.inj h
      exact ⟨rfl, _, rfl⟩
    · obtain rfl := Option.some.inj h
      exact ⟨rfl, _, rfl⟩
    · contradiction
  | product =>
    change productOperator? text = some op at h
    unfold productOperator? at h
    split at h
    · obtain rfl := Option.some.inj h
      exact ⟨rfl, _, rfl⟩
    · obtain rfl := Option.some.inj h
      exact ⟨rfl, _, rfl⟩
    · obtain rfl := Option.some.inj h
      exact ⟨rfl, _, rfl⟩
    · contradiction

/-! ## First characters -/

namespace Phrase

variable {V : Type}

theorem atom_head (p : Phrase V .atom) : ∃ c rest, p.text = c :: rest ∧ c ≠ '-' ∧ c ≠ '+' := by
  have hword : ∀ c : Char, c.toLower ∈ initials → c ≠ '-' ∧ c ≠ '+' := by
    intro c hc
    constructor <;> rintro rfl <;> revert hc <;> decide
  have hnumeral : ∀ c : Char, isNumeral c = true → c ≠ '-' ∧ c ≠ '+' := by
    intro c hc
    constructor <;> rintro rfl <;> revert hc <;> decide
  cases p with
  | group inner => exact ⟨'(', _, rfl, by decide⟩
  | call f name argument =>
    obtain ⟨c, rest, hname, hc⟩ := name.text_cons
    exact ⟨c, rest ++ '(' :: argument.text ++ [')'], by simp [text, hname], hword c hc⟩
  | constant k => cases k <;> exact ⟨_, _, rfl, by decide⟩
  | number n =>
    obtain ⟨c, rest, hn, hc⟩ := n.text_cons
    exact ⟨c, rest, hn, hnumeral c hc⟩
  | unknown v => exact ⟨'x', [], rfl, by decide⟩

/-- No sign stands where an atom begins. -/
theorem atom_head_append_ne (p : Phrase V .atom) (rest : List Char) :
    (p.text ++ rest).head? ≠ some '-' ∧ (p.text ++ rest).head? ≠ some '+' := by
  obtain ⟨c, more, htext, hminus, hplus⟩ := p.atom_head
  rw [htext, List.cons_append, List.head?_cons]
  exact ⟨mt Option.some.inj hminus, mt Option.some.inj hplus⟩

end Phrase

end Reckoner.Expression
