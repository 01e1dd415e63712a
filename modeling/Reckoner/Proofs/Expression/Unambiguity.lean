import Reckoner.Proofs.Expression.Reader

/-!
# A text has one derivation

Two phrases of a level that start at the same place, and that the text behind them does not continue, are equal.
The levels are taken one by one, each under the assumption that sums inside parentheses have one derivation;
chains are compared by the number of their operators.
-/

namespace Reckoner.Expression

set_option autoImplicit false

variable {V : Type} {n : Nat}

/-- Phrases of the level with at most the given nesting are determined by the text that starts with them. -/
def Unambiguous (V : Type) (n : Nat) (l : Level) : Prop :=
  ∀ (p q : Phrase V l) (r r' : List Char), p.nesting ≤ n → q.nesting ≤ n → p.text ++ r = q.text ++ r' →
    l.Stops r → l.Stops r' → p = q ∧ r = r'

/-! ## Atoms -/

/-- The five kinds of atoms, the two constants apart. -/
inductive AtomKind where
  | group
  | call
  | constant (c : Constant)
  | number
  | unknown
  deriving DecidableEq, Repr

/-- The kind of an atom. -/
def Phrase.kind : {l : Level} → Phrase V l → AtomKind
  | _, .group _ => .group
  | _, .call _ _ _ => .call
  | _, .constant c => .constant c
  | _, .number _ => .number
  | _, _ => .unknown

/-- The kind of an atom that starts with the character. -/
def AtomKind.ofChar (c : Char) : AtomKind :=
  if c = '(' then .group
  else if c.toLower ∈ initials then .call
  else if c = 'p' then .constant .pi
  else if c = 'e' then .constant .e
  else if isNumeral c then .number
  else .unknown

theorem AtomKind.ofChar_numeral {c : Char} (h : isNumeral c = true) : AtomKind.ofChar c = .number := by
  have hopen : c ≠ '(' := by
    rintro rfl
    contradiction
  have hp : c ≠ 'p' := by
    rintro rfl
    contradiction
  have he : c ≠ 'e' := by
    rintro rfl
    contradiction
  rw [AtomKind.ofChar, if_neg hopen, if_neg (not_initial_of_isNumeral h), if_neg hp, if_neg he, if_pos h]

theorem Phrase.kind_eq (p : Phrase V .atom) : ∃ c rest, p.text = c :: rest ∧ AtomKind.ofChar c = p.kind := by
  cases p with
  | group inner => exact ⟨'(', _, rfl, rfl⟩
  | call f name argument =>
    obtain ⟨c, rest, hname, hc⟩ := name.text_cons
    have hopen : c ≠ '(' := by
      rintro rfl
      revert hc
      decide
    refine ⟨c, rest ++ '(' :: argument.text ++ [')'], by simp [text, hname], ?_⟩
    rw [AtomKind.ofChar, if_neg hopen, if_pos hc]
    rfl
  | constant c => cases c <;> exact ⟨_, _, rfl, rfl⟩
  | number n =>
    obtain ⟨c, rest, hn, hc⟩ := n.text_cons
    exact ⟨c, rest, hn, AtomKind.ofChar_numeral hc⟩
  | unknown v => exact ⟨'x', [], rfl, rfl⟩

theorem kind_unique {p q : Phrase V .atom} {r r' : List Char} (h : p.text ++ r = q.text ++ r') : p.kind = q.kind := by
  obtain ⟨c, rest, hp, hpc⟩ := p.kind_eq
  obtain ⟨d, rest', hq, hqd⟩ := q.kind_eq
  rw [hp, hq, List.cons_append, List.cons_append] at h
  rw [← hpc, ← hqd, (List.cons.inj h).1]

theorem numeral_unique {a b : Numeral} {r r' : List Char} (h : a.text ++ r = b.text ++ r') (hr : NoNumeral r)
    (hr' : NoNumeral r') : a = b ∧ r = r' := by
  have htext : a.text = b.text := by
    rw [← takeWhile_numeral a hr, h, takeWhile_numeral b hr']
  rw [htext] at h
  exact ⟨Numeral.ext htext, List.append_cancel_left h⟩

theorem atom_unambiguous [Subsingleton V] (hsum : ∀ k < n, Unambiguous V k (.chain .sum)) :
    Unambiguous V n .atom := by
  intro p q r r' hp hq htext hr hr'
  have hkind := kind_unique htext
  cases p with
  | group p =>
    cases q with
    | group q =>
      simp only [Phrase.nesting] at hp hq
      have htext' : p.text ++ ')' :: r = q.text ++ ')' :: r' := by simpa [Phrase.text] using htext
      obtain ⟨rfl, hrest⟩ := hsum (n - 1) (by omega) p q _ _ (by omega) (by omega) htext' (stops_close _ _)
        (stops_close _ _)
      exact ⟨rfl, (List.cons.inj hrest).2⟩
    | _ => simp [Phrase.kind] at hkind
  | call f name p =>
    cases q with
    | call g name' q =>
      simp only [Phrase.nesting] at hp hq
      have htext' : name.text ++ ('(' :: p.text ++ ')' :: r) = name'.text ++ ('(' :: q.text ++ ')' :: r') := by
        simpa [Phrase.text] using htext
      have hmatch : some f = some g := by
        rw [← match?_spelling name ('(' :: p.text ++ ')' :: r), htext', match?_spelling]
      obtain rfl := Option.some.inj hmatch
      obtain ⟨hname, hparens⟩ := List.append_inj htext' (by rw [name.length_text, name'.length_text])
      obtain rfl : name = name' := Spelling.ext hname
      have hinside : p.text ++ ')' :: r = q.text ++ ')' :: r' := (List.cons.inj hparens).2
      obtain ⟨rfl, hrest⟩ := hsum (n - 1) (by omega) p q _ _ (by omega) (by omega) hinside (stops_close _ _)
        (stops_close _ _)
      exact ⟨rfl, (List.cons.inj hrest).2⟩
    | _ => simp [Phrase.kind] at hkind
  | constant c =>
    cases q with
    | constant d =>
      obtain rfl : c = d := by simpa [Phrase.kind] using hkind
      exact ⟨rfl, List.append_cancel_left htext⟩
    | _ => simp [Phrase.kind] at hkind
  | number a =>
    cases q with
    | number b =>
      obtain ⟨rfl, hrest⟩ := numeral_unique htext hr hr'
      exact ⟨rfl, hrest⟩
    | _ => simp [Phrase.kind] at hkind
  | unknown v =>
    cases q with
    | unknown w =>
      obtain rfl := Subsingleton.elim v w
      exact ⟨rfl, List.append_cancel_left htext⟩
    | _ => simp [Phrase.kind] at hkind

/-! ## Signs and powers -/

theorem signed_unambiguous (hatom : Unambiguous V n .atom) : Unambiguous V n .signed := by
  intro p q r r' hp hq htext hr hr'
  have hhead : ∀ (a : Phrase V .atom) (d : Char) (rest rest' : List Char), d = '-' ∨ d = '+' →
      a.text ++ rest ≠ d :: rest' := by
    intro a d rest rest' hd h
    obtain ⟨hminus, hplus⟩ := a.atom_head_append_ne rest
    rw [h, List.head?_cons] at hminus hplus
    rcases hd with rfl | rfl
    · exact hminus rfl
    · exact hplus rfl
  cases p with
  | bare a =>
    cases q with
    | bare b =>
      obtain ⟨rfl, hrest⟩ := hatom a b r r' hp hq htext hr hr'
      exact ⟨rfl, hrest⟩
    | plus b => exact absurd htext (hhead a '+' r _ (Or.inr rfl))
    | minus b => exact absurd htext (hhead a '-' r _ (Or.inl rfl))
  | plus a =>
    cases q with
    | bare b => exact absurd htext.symm (hhead b '+' r' _ (Or.inr rfl))
    | plus b =>
      obtain ⟨rfl, hrest⟩ := hatom a b r r' hp hq (List.cons.inj htext).2 hr hr'
      exact ⟨rfl, hrest⟩
    | minus b => exact absurd (List.cons.inj htext).1 (by decide)
  | minus a =>
    cases q with
    | bare b => exact absurd htext.symm (hhead b '-' r' _ (Or.inl rfl))
    | plus b => exact absurd (List.cons.inj htext).1 (by decide)
    | minus b =>
      obtain ⟨rfl, hrest⟩ := hatom a b r r' hp hq (List.cons.inj htext).2 hr hr'
      exact ⟨rfl, hrest⟩

theorem power_unambiguous (hsigned : Unambiguous V n .signed) : Unambiguous V n .power := by
  intro p q r r' hp hq htext hr hr'
  cases p with
  | base a =>
    cases q with
    | base b =>
      obtain ⟨rfl, hrest⟩ := hsigned a b r r' hp hq htext hr.2 hr'.2
      exact ⟨rfl, hrest⟩
    | raise b e =>
      simp only [Phrase.nesting] at hp hq
      have htext' : a.text ++ r = b.text ++ ('^' :: e.text ++ r') := by simpa [Phrase.text] using htext
      obtain ⟨-, hrest⟩ := hsigned a b r _ hp (by omega) htext' hr.2 (stops_caret _)
      exact absurd (by rw [hrest]; rfl) hr.1
  | raise a d =>
    cases q with
    | base b =>
      simp only [Phrase.nesting] at hp hq
      have htext' : a.text ++ ('^' :: d.text ++ r) = b.text ++ r' := by simpa [Phrase.text] using htext
      obtain ⟨-, hrest⟩ := hsigned a b _ r' (by omega) hq htext' (stops_caret _) hr'.2
      exact absurd (by rw [← hrest]; rfl) hr'.1
    | raise b e =>
      simp only [Phrase.nesting] at hp hq
      have htext' : a.text ++ ('^' :: d.text ++ r) = b.text ++ ('^' :: e.text ++ r') := by
        simpa [Phrase.text] using htext
      obtain ⟨rfl, hrest⟩ := hsigned a b _ _ (by omega) (by omega) htext' (stops_caret _) (stops_caret _)
      obtain ⟨rfl, hrest'⟩ := hsigned d e r r' (by omega) (by omega) (List.cons.inj hrest).2 hr.2 hr'.2
      exact ⟨rfl, hrest'⟩

/-! ## Chains -/

/-- The operators of a chain outside parentheses. -/
def Phrase.operators : {l : Level} → Phrase V l → Nat
  | _, .extend left _ _ _ => left.operators + 1
  | _, _ => 0

theorem Operator.symbol_injective {op op' : Operator} (h : op.symbol = op'.symbol) : op = op' := by
  cases op <;> cases op' <;> first | rfl | exact absurd h (by decide)

theorem chain_unique_of_eq {rank : Rank} (hoperand : Unambiguous V n rank.operand) (q p : Phrase V (.chain rank))
    (r r' : List Char) (hp : p.nesting ≤ n) (hq : q.nesting ≤ n) (hcount : p.operators = q.operators)
    (htext : p.text ++ r = q.text ++ r') (hr : rank.operand.Stops r) (hr' : rank.operand.Stops r') :
    p = q ∧ r = r' := by
  induction q using Phrase.chainInduction generalizing p r r' with
  | single b =>
    cases p with
    | single a =>
      obtain ⟨rfl, hrest⟩ := hoperand a b r r' hp hq htext hr hr'
      exact ⟨rfl, hrest⟩
    | extend left op belongs a => simp [Phrase.operators] at hcount
  | extend left' op' belongs' b ih =>
    cases p with
    | single a => simp [Phrase.operators] at hcount
    | extend left op belongs a =>
      simp only [Phrase.nesting, Phrase.operators] at hp hq hcount
      have htext' : left.text ++ (op.symbol :: a.text ++ r) = left'.text ++ (op'.symbol :: b.text ++ r') := by
        simpa [Phrase.text] using htext
      obtain ⟨rfl, hrest⟩ := ih left _ _ (by omega) (by omega) (by omega) htext' (Operator.stops_symbol belongs _)
        (Operator.stops_symbol belongs' _)
      obtain ⟨hsymbol, hright⟩ := List.cons.inj hrest
      obtain rfl := Operator.symbol_injective hsymbol
      obtain ⟨rfl, hrest'⟩ := hoperand a b r r' (by omega) (by omega) hright hr hr'
      exact ⟨rfl, hrest'⟩

/-- A chain with fewer operators stops in front of an operator of the longer one. -/
theorem chain_stops_short {rank : Rank} (hoperand : Unambiguous V n rank.operand) (q p : Phrase V (.chain rank))
    (r r' : List Char) (hp : p.nesting ≤ n) (hq : q.nesting ≤ n) (hcount : p.operators < q.operators)
    (htext : p.text ++ r = q.text ++ r') (hr : rank.operand.Stops r) (hr' : rank.operand.Stops r') :
    ∃ op, rank.operator? r = some op := by
  induction q using Phrase.chainInduction generalizing r r' with
  | single b => simp [Phrase.operators] at hcount
  | extend left op belongs b ih =>
    simp only [Phrase.nesting, Phrase.operators] at hq hcount
    have htext' : p.text ++ r = left.text ++ (op.symbol :: b.text ++ r') := by simpa [Phrase.text] using htext
    have hstop := Operator.stops_symbol belongs (b.text ++ r')
    by_cases heq : p.operators = left.operators
    · obtain ⟨-, hrest⟩ := chain_unique_of_eq hoperand left p r _ hp (by omega) heq htext' hr hstop
      refine ⟨op, ?_⟩
      rw [hrest]
      exact Operator.operator?_symbol belongs (by simp [b.text_ne_nil])
    · exact ih r _ (by omega) (by omega) htext' hr hstop

theorem chain_unambiguous {rank : Rank} (hoperand : Unambiguous V n rank.operand) :
    Unambiguous V n (.chain rank) := by
  intro p q r r' hp hq htext hr hr'
  obtain ⟨hnone, hstop⟩ := Level.stops_chain hr
  obtain ⟨hnone', hstop'⟩ := Level.stops_chain hr'
  rcases Nat.lt_trichotomy p.operators q.operators with hlt | heq | hgt
  · obtain ⟨op, hop⟩ := chain_stops_short hoperand q p r r' hp hq hlt htext hstop hstop'
    rw [hnone] at hop
    contradiction
  · exact chain_unique_of_eq hoperand q p r r' hp hq heq htext hstop hstop'
  · obtain ⟨op, hop⟩ := chain_stops_short hoperand p q r' r hq hp hgt htext.symm hstop' hstop
    rw [hnone'] at hop
    contradiction

/-! ## Sentences -/

theorem sum_unambiguous [Subsingleton V] (n : Nat) : Unambiguous V n (.chain .sum) := by
  induction n using Nat.strongRecOn with
  | ind n ih =>
    have hpower := power_unambiguous (signed_unambiguous (atom_unambiguous ih))
    exact @chain_unambiguous _ _ .sum (@chain_unambiguous _ _ .product hpower)

theorem sum_text_injective [Subsingleton V] {p q : Phrase V (.chain .sum)} (h : p.text = q.text) : p = q := by
  have htext : p.text ++ [] = q.text ++ [] := by rw [h]
  exact (sum_unambiguous (max p.nesting q.nesting) p q [] [] (Nat.le_max_left _ _) (Nat.le_max_right _ _) htext
    (stops_nil _) (stops_nil _)).1

end Reckoner.Expression
