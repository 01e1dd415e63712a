import Reckoner.Proofs.Expression.Acceptance

/-!
# Computing while parsing

The parser computes while it reads. It could as well read the whole text first and give the tree its value
afterwards: a text that is recognized has the value or the first failure of its tree. In a text that is not
recognized the parser finds the same fault, unless an operation that stands wholly in front of the fault has no
value; then it stops there.
-/

namespace Reckoner.Expression

set_option autoImplicit false

/-! ## Operations of the arithmetic -/

/--
A division by zero, or a call outside the domain of its function, whose operands have values. It is a phrase of the
level, starts at the position and has the text.
-/
inductive Undefined (s : Settings) : Level → Nat → List Char → Failure → Prop where
  | division (left : Phrase Empty (.chain .product)) (right : Phrase Empty .power) (start : Nat) (x y : Float)
      (hleft : (left.treeAt start).value s = .ok x)
      (hright : (right.treeAt (start + left.text.length + 1)).value s = .ok y) (hzero : (y == 0) = true) :
      Undefined s (.chain .product) start (left.text ++ '/' :: right.text)
        (.divisionByZero (start + left.text.length))
  | call (f : Function) (name : Spelling f) (argument : Sentence) (start : Nat) (x : Float) (gap : DomainGap)
      (hargument : (argument.treeAt (start + name.text.length + 1)).value s = .ok x)
      (hgap : f.apply s x = .error gap) :
      Undefined s .atom start (name.text ++ '(' :: argument.text ++ [')']) (.outsideDomain gap)

variable {s : Settings}

theorem Operator.apply_eq_error {op : Operator} {position : Nat} {x y : Float} {failure : Failure}
    (h : op.apply position x y = .error failure) :
    op = .over ∧ (y == 0) = true ∧ failure = .divisionByZero position := by
  match op, h with
  | .over, h =>
    simp only [Operator.apply] at h
    split at h
    · next hzero => exact ⟨rfl, hzero, (Except.error.inj h).symm⟩
    · cases h
  | .plus, h | .minus, h | .times, h | .percent, h => cases h

theorem call_eq_error {f : Function} {x : Float} {failure : Failure}
    (h : (arithmetic s).call f x = .error failure) : ∃ gap, f.apply s x = .error gap ∧ failure = .outsideDomain gap := by
  simp only [arithmetic] at h
  cases hf : f.apply s x with
  | ok y =>
    rw [hf] at h
    cases h
  | error gap =>
    rw [hf] at h
    exact ⟨gap, rfl, (Except.error.inj h).symm⟩

theorem Broken.undefined {l : Level} {start : Nat} {text : List Char} {failure : Failure}
    (h : Broken (arithmetic s) l start text failure) : Undefined s l start text failure := by
  cases h with
  | @operator rank left op belongs right start x y failure hleft hright fails =>
    obtain ⟨rfl, hzero, rfl⟩ := Operator.apply_eq_error fails
    obtain rfl : Rank.product = rank := belongs
    exact .division left right start x y hleft hright hzero
  | call f name argument start x failure hargument fails =>
    obtain ⟨gap, hgap, rfl⟩ := call_eq_error fails
    exact .call f name argument start x gap hargument hgap

/-- The arithmetic has no failures of the grammar. -/
theorem not_fails_malformed {fault : Fault} {position : Nat} :
    ¬ (arithmetic s).Fails (.malformed fault position) := by
  rintro (⟨op, position, x, y, h⟩ | ⟨f, x, h⟩)
  · cases (Operator.apply_eq_error h).2.2
  · obtain ⟨gap, -, hfailure⟩ := call_eq_error h
    cases hfailure

/-! ## Whole texts -/

theorem recognize_error {text : List Char} {h : Halt} (hr : recognize text = .error h) :
    ∃ fault position, h.cause = .failed (.malformed fault position) := by
  have hexplained := parse_explained trees text
  rw [recognize] at hr
  rw [hr] at hexplained
  rcases hexplained with ⟨p, x, next, back, cursor, -, -, -, rfl⟩ | haccounted
  · exact ⟨_, _, rfl⟩
  · obtain ⟨fault, front, back, -, -, hcause⟩ := accounted_trees haccounted
    exact ⟨_, _, hcause⟩

/-- A halt with a failure of the arithmetic stands behind an operation without a value. -/
theorem parse_undefined {text : List Char} {h : Halt} (hparse : parse (arithmetic s) text = .error h)
    {failure : Failure} (hcause : h.cause = .failed failure) (hfails : (arithmetic s).Fails failure) :
    ∃ l front operation back, text = front ++ operation ++ back ∧ Leads front l (.chain .sum) ∧
      Undefined s l front.length operation failure ∧ h.cursor.position = (front ++ operation).length := by
  have hexplained := parse_explained (arithmetic s) text
  rw [hparse] at hexplained
  rcases hexplained with ⟨p, x, next, back, cursor, -, -, -, rfl⟩ | haccounted
  · obtain rfl := Cause.failed.inj hcause
    exact absurd hfails not_fails_malformed
  · cases haccounted with
    | grammatical fault front back cursor rest_eq viable =>
      obtain rfl := Cause.failed.inj hcause
      exact absurd hfails not_fails_malformed
    | computational l front operation back failure cursor rest_eq leads broken position_eq =>
      obtain rfl := Cause.failed.inj hcause
      have hundefined := broken.undefined
      simp only [Cursor.start, Nat.zero_add] at hundefined position_eq
      exact ⟨l, front, operation, back, rest_eq, leads, hundefined, position_eq⟩

/--
Computing while parsing refines parsing first. With a tree the parser has the outcome of the tree's value. Without
one it has the recognizer's fault, or the failure of an operation that ends at or in front of the fault.
-/
theorem parse_refines_recognize (s : Settings) (text : List Char) :
    match recognize (Text.trim text) with
    | .ok (t, c) =>
      match t.value s with
      | .ok v => parse (arithmetic s) (Text.trim text) = .ok (v, c)
      | .error failure => ∃ c', parse (arithmetic s) (Text.trim text) = .error ⟨.failed failure, c'⟩
    | .error h =>
      ∃ fault position, h.cause = .failed (.malformed fault position) ∧
        (parse (arithmetic s) (Text.trim text) = .error h ∨
          ∃ failure c', parse (arithmetic s) (Text.trim text) = .error ⟨.failed failure, c'⟩ ∧
            ∃ l front operation back, Text.trim text = front ++ operation ++ back ∧
              Leads front l (.chain .sum) ∧ Undefined s l front.length operation failure ∧
              (front ++ operation).length ≤ position) := by
  cases hr : recognize (Text.trim text) with
  | ok built =>
    obtain ⟨t, c⟩ := built
    obtain ⟨hok, herror⟩ := parse_of_recognize (m := arithmetic s) hr
    cases hvalue : t.value s with
    | ok v => simpa only [hvalue] using hok v hvalue
    | error failure => simpa only [hvalue] using herror failure hvalue
  | error h =>
    have htracks := parse_tracks (arithmetic s) (Text.trim text)
    rw [hr] at htracks
    obtain ⟨fault, position, hcause⟩ := recognize_error hr
    refine ⟨fault, position, hcause, ?_⟩
    cases hparse : parse (arithmetic s) (Text.trim text) with
    | ok r =>
      rw [hparse] at htracks
      obtain ⟨t, hok, -⟩ := htracks
      cases hok
    | error h' =>
      rw [hparse] at htracks
      rcases htracks with herror | ⟨failure, hcause', hfails, hstuck⟩
      · exact Or.inl (by rw [Except.error.inj herror])
      · obtain ⟨l, front, operation, back, htext, hleads, hundefined, hcursor⟩ :=
          parse_undefined hparse hcause' hfails
        have hle : h'.cursor.position ≤ position := hstuck position (by simp [Halt.failure, hcause, Failure.position?])
        exact Or.inr ⟨failure, h'.cursor, by rw [← hcause'], l, front, operation, back, htext, hleads, hundefined,
          hcursor ▸ hle⟩

end Reckoner.Expression
