import Reckoner.Proofs.Expression.Acceptance
import Reckoner.Proofs.Text.Replace

/-!
# An atom in the place of a variable

Putting an atom in the place of every variable of a phrase plugs its text into the text of the phrase, and the value
is that of the phrase with the variables bound to the value of the atom; only positions move. Replacing the glyphs
commutes with plugging in a text without glyphs, as long as no root sign is left over.
-/

namespace Reckoner.Expression

set_option autoImplicit false

/-! ## Characters of a phrase -/

theorem toNat_lt_of_toLower {c : Char} (h : c.toLower.toNat < 128) : c.toNat < 128 := by
  by_cases hupper : 65 ≤ c.toNat ∧ c.toNat ≤ 90
  · omega
  · rwa [toLower_of_not_capital hupper] at h

theorem Spelling.ascii {f : Function} (name : Spelling f) : ∀ c ∈ name.text, c.toNat < 128 := by
  have hname : ∀ g : Function, ∀ c ∈ g.name.toList, c.toNat < 128 := by
    intro g
    cases g <;> simp [Function.name]
  exact fun c hc => toNat_lt_of_toLower (hname f _ (name.toLower_mem hc))

theorem Spelling.variable_not_mem {f : Function} (name : Spelling f) : 'x' ∉ name.text := by
  have hname : ∀ g : Function, 'x' ∉ g.name.toList := by
    intro g
    cases g <;> decide
  exact fun hc => hname f (name.toLower_mem hc)

theorem Numeral.variable_not_mem (n : Numeral) : 'x' ∉ n.text :=
  fun hc => absurd (n.all_numeral _ hc) (by decide)

namespace Phrase

variable {V : Type}

theorem ascii : {l : Level} → (p : Phrase V l) → ∀ c ∈ p.text, c.toNat < 128
  | _, .single operand => operand.ascii
  | _, .extend left op _ right => by
    have hop : op.symbol.toNat < 128 := by cases op <;> decide
    simp only [text, List.forall_mem_append, List.forall_mem_cons]
    exact ⟨left.ascii, hop, right.ascii⟩
  | _, .base b => b.ascii
  | _, .raise b exponent => by
    simp only [text, List.forall_mem_append, List.forall_mem_cons]
    exact ⟨b.ascii, by decide, exponent.ascii⟩
  | _, .bare operand => operand.ascii
  | _, .plus operand => by
    simp only [text, List.forall_mem_cons]
    exact ⟨by decide, operand.ascii⟩
  | _, .minus operand => by
    simp only [text, List.forall_mem_cons]
    exact ⟨by decide, operand.ascii⟩
  | _, .group inner => by
    simp only [text, List.cons_append, List.forall_mem_cons, List.forall_mem_append]
    exact ⟨by decide, inner.ascii, by simp⟩
  | _, .call _ name argument => by
    simp only [text, List.forall_mem_cons, List.forall_mem_append]
    exact ⟨⟨name.ascii, by decide, argument.ascii⟩, by simp⟩
  | _, .constant c => by cases c <;> simp [text, Constant.word]
  | _, .number n => fun c hc => Nat.lt_of_le_of_lt (toNat_le_of_isNumeral (n.all_numeral c hc)) (by decide)
  | _, .unknown _ => by simp [text]

/-! ## Substitution -/

/-- The phrase with an atom in the place of every variable. -/
def subst : {l : Level} → Phrase V l → Phrase Empty .atom → Phrase Empty l
  | _, .single operand, q => .single (operand.subst q)
  | _, .extend left op belongs right, q => .extend (left.subst q) op belongs (right.subst q)
  | _, .base b, q => .base (b.subst q)
  | _, .raise b exponent, q => .raise (b.subst q) (exponent.subst q)
  | _, .bare operand, q => .bare (operand.subst q)
  | _, .plus operand, q => .plus (operand.subst q)
  | _, .minus operand, q => .minus (operand.subst q)
  | _, .group inner, q => .group (inner.subst q)
  | _, .call f name argument, q => .call f name (argument.subst q)
  | _, .constant c, _ => .constant c
  | _, .number n, _ => .number n
  | _, .unknown _, q => q

theorem text_subst (q : Phrase Empty .atom) : {l : Level} → (p : Phrase V l) →
    (p.subst q).text = Text.plugIn 'x' q.text p.text
  | _, .single operand => text_subst q operand
  | _, .extend left op _ right => by
    have hop : op.symbol ≠ 'x' := by cases op <;> decide
    rw [text, Text.plugIn_append, Text.plugIn_cons_of_ne hop, ← text_subst q left, ← text_subst q right]
    rfl
  | _, .base b => text_subst q b
  | _, .raise b exponent => by
    rw [text, Text.plugIn_append, Text.plugIn_cons_of_ne (by decide), ← text_subst q b, ← text_subst q exponent]
    rfl
  | _, .bare operand => text_subst q operand
  | _, .plus operand => by
    rw [text, Text.plugIn_cons_of_ne (by decide), ← text_subst q operand]
    rfl
  | _, .minus operand => by
    rw [text, Text.plugIn_cons_of_ne (by decide), ← text_subst q operand]
    rfl
  | _, .group inner => by
    rw [text, List.cons_append, Text.plugIn_cons_of_ne (by decide), Text.plugIn_append, ← text_subst q inner]
    rfl
  | _, .call _ name argument => by
    rw [text, List.append_assoc, Text.plugIn_append, Text.plugIn_of_not_mem name.variable_not_mem, List.cons_append,
      Text.plugIn_cons_of_ne (by decide), Text.plugIn_append, ← text_subst q argument]
    simp [subst, text, Text.plugIn]
  | _, .constant c => by cases c <;> rfl
  | _, .number n => (Text.plugIn_of_not_mem n.variable_not_mem).symm
  | _, .unknown _ => by
    rw [text, Text.plugIn_cons_self, Text.plugIn_nil, List.append_nil]
    rfl

/-- A variable counts as one parenthesis, which an atom of that nesting does not exceed. -/
theorem nesting_subst {q : Phrase Empty .atom} (hq : q.nesting ≤ 1) : {l : Level} → (p : Phrase V l) →
    (p.subst q).nesting ≤ p.nesting
  | _, .single operand => nesting_subst hq operand
  | _, .extend left _ _ right => by
    have hleft := nesting_subst hq left
    have hright := nesting_subst hq right
    simp only [subst, nesting]
    omega
  | _, .base b => nesting_subst hq b
  | _, .raise b exponent => by
    have hbase := nesting_subst hq b
    have hexponent := nesting_subst hq exponent
    simp only [subst, nesting]
    omega
  | _, .bare operand => nesting_subst hq operand
  | _, .plus operand => nesting_subst hq operand
  | _, .minus operand => nesting_subst hq operand
  | _, .group inner => Nat.succ_le_succ (nesting_subst hq inner)
  | _, .call _ _ argument => Nat.succ_le_succ (nesting_subst hq argument)
  | _, .constant _ => Nat.le_refl _
  | _, .number _ => Nat.le_refl _
  | _, .unknown _ => hq

end Phrase

/-! ## Outcomes up to positions -/

/-- Equal values, or failures of one class with one wording. -/
inductive Agree : Except Failure Float → Except Failure Float → Prop where
  | value (x : Float) : Agree (.ok x) (.ok x)
  | failure (first second : Failure) (kind_eq : first.kind = second.kind)
      (message_eq : first.message = second.message) : Agree (.error first) (.error second)

theorem Agree.refl (outcome : Except Failure Float) : Agree outcome outcome := by
  cases outcome with
  | ok x => exact .value x
  | error failure => exact .failure failure failure rfl rfl

theorem Agree.bind {first second : Except Failure Float} {go go' : Float → Except Failure Float}
    (h : Agree first second) (hgo : ∀ x, Agree (go x) (go' x)) : Agree (first.bind go) (second.bind go') := by
  cases h with
  | value x => exact hgo x
  | failure f g kind_eq message_eq => exact .failure f g kind_eq message_eq

/-- The position of an operator shows in the position of its failure only. -/
theorem Operator.apply_agree (op : Operator) (position position' : Nat) (x y : Float) :
    Agree (op.apply position x y) (op.apply position' x y) := by
  match op with
  | .over =>
    simp only [Operator.apply]
    split
    · exact .failure _ _ rfl rfl
    · exact .value _
  | .plus | .minus | .times | .percent => exact .value _

/-- The phrase with the atom has the value of the phrase with the variables bound to the atom's value. -/
theorem Phrase.value_subst {V : Type} {s : Settings} {x : Float} {q : Phrase Empty .atom}
    (hq : ∀ start, (q.treeAt start).value s = .ok x) : {l : Level} → (p : Phrase V l) → (start start' : Nat) →
    Agree ((p.tree (fun _ => x) start).value s) (((p.subst q).treeAt start').value s)
  | _, .single operand, _, _ => value_subst hq operand _ _
  | _, .extend left op _ right, _, _ =>
    (value_subst hq left _ _).bind fun _ => (value_subst hq right _ _).bind fun _ => op.apply_agree _ _ _ _
  | _, .base b, _, _ => value_subst hq b _ _
  | _, .raise b exponent, _, _ =>
    (value_subst hq b _ _).bind fun _ => (value_subst hq exponent _ _).bind fun _ => .value _
  | _, .bare operand, _, _ => value_subst hq operand _ _
  | _, .plus operand, _, _ => value_subst hq operand _ _
  | _, .minus operand, _, _ => (value_subst hq operand _ _).bind fun _ => .value _
  | _, .group inner, _, _ => value_subst hq inner _ _
  | _, .call _ _ argument, _, _ => (value_subst hq argument _ _).bind fun _ => .refl _
  | _, .constant _, _, _ => .value _
  | _, .number _, _, _ => .value _
  | _, .unknown _, _, start' => by
    rw [Phrase.subst, hq start']
    exact .value x

end Reckoner.Expression
