import Reckoner.Proofs.Expression.Acceptance

/-!
# Reading with an explicit stack

The procedures of the grammar as a machine. Every activation that waits for another one is a frame on a stack. A step
enters a procedure, stands at the head of a loop, gives a value to the activation on top of the stack, or raises a failure
through it. The machine knows no levels: nothing bounds its stack but the text. It halts with the outcome of the parser,
whatever the levels of the parser are, as long as they reach beyond the nesting limit.
-/

namespace Reckoner.Expression

set_option autoImplicit false

/-- The constant that a text starts with; `e` is none in front of a digit. -/
def constant? : List Char → Option Constant
  | 'p' :: 'i' :: _ => some .pi
  | 'e' :: next :: _ => if Literal.isDigit next then none else some .e
  | ['e'] => some .e
  | _ => none

namespace Machine

/-! ## States -/

/-- The procedures of the grammar that call each other. -/
inductive Procedure where
  | expression
  | chain (rank : Rank)
  | power
  | signed
  | atom
  | call (f : Function)
  | number
  deriving DecidableEq, Repr

/-- The procedure of the operands of a chain. -/
def operandOf : Rank → Procedure
  | .sum => .chain .product
  | .product => .power

/-- An activation that waits for the one it has called, with what it remembers. -/
inductive Frame (α : Type) where
  /-- The parser of the whole text. -/
  | whole
  | expression
  /-- A chain that waits for its first operand. -/
  | first (rank : Rank)
  /-- A chain that waits for the operand behind an operator at the position. -/
  | operand (rank : Rank) (left : α) (op : Operator) (position : Nat)
  | base
  | exponent (base : α)
  | sign (negative : Bool)
  /-- An atom that waits for the inside of its parentheses. -/
  | group
  /-- An atom that waits for a call or a number. -/
  | word
  | argument (f : Function)
  deriving DecidableEq, Repr

inductive Control (α : Type) where
  | enter (p : Procedure)
  /-- The head of the loop over the operators of a chain. -/
  | loop (rank : Rank) (left : α)
  /-- The head of the loop over the characters of a number, with its start and the characters so far. -/
  | scan (start : Nat) (token : List Char)
  | give (value : α)
  | raise (failure : Failure)
  deriving DecidableEq, Repr

structure State (α : Type) where
  control : Control α
  cursor : Cursor
  frames : List (Frame α)
  deriving DecidableEq, Repr

/-- An activation ends with the outcome of a reader. -/
def State.after {α : Type} : Except Halt (α × Cursor) → List (Frame α) → State α
  | .ok r, frames => ⟨.give r.1, r.2, frames⟩
  | .error h, frames => ⟨.raise h.failure, h.cursor, frames⟩

/-- The parser has called the procedure of the whole expression. -/
def State.start {α : Type} (text : List Char) : State α :=
  ⟨.enter .expression, .start text, [.whole]⟩

/-! ## Steps -/

section
variable {α : Type} (m : Meaning α)

/-- Opens a parenthesis and enters the expression inside, for the activation of the frame. -/
def opening (frame : Frame α) (c : Cursor) (frames : List (Frame α)) : State α :=
  match openParen c with
  | .ok c₁ => ⟨.enter .expression, c₁, frame :: frames⟩
  | .error h => ⟨.raise h.failure, h.cursor, frames⟩

/-- An atom that does not start with a parenthesis. -/
def word (c : Cursor) (frames : List (Frame α)) : State α :=
  match Function.match? c.rest with
  | some f => ⟨.enter (.call f), c, .word :: frames⟩
  | none =>
    match constant? c.rest with
    | some k => ⟨.give (m.constant k), c.skip k.word.length, frames⟩
    | none => ⟨.enter .number, c, .word :: frames⟩

/-- From the entry of a procedure up to its first call, its loop or its end. -/
def enter : Procedure → Cursor → List (Frame α) → State α
  | .expression, c, frames => ⟨.enter (.chain .sum), c, .expression :: frames⟩
  | .chain rank, c, frames => ⟨.enter (operandOf rank), c, .first rank :: frames⟩
  | .power, c, frames => ⟨.enter .signed, c, .base :: frames⟩
  | .signed, c, frames =>
    match c.rest with
    | '-' :: _ => ⟨.enter .atom, c.skip 1, .sign true :: frames⟩
    | '+' :: _ => ⟨.enter .atom, c.skip 1, .sign false :: frames⟩
    | _ => ⟨.enter .atom, c, .sign false :: frames⟩
  | .atom, c, frames =>
    match c.rest with
    | '(' :: _ => opening .group c frames
    | _ => word m c frames
  | .call f, c, frames =>
    let c₁ : Cursor := c.skip f.name.toList.length
    match c₁.rest with
    | '(' :: _ => opening (.argument f) c₁ frames
    | _ => .after (refuse (.unopenedCall f) c₁) frames
  | .number, c, frames => ⟨.scan c.position [], c, frames⟩

/-- One round of the loop over operators. -/
def loop (rank : Rank) (left : α) (c : Cursor) (frames : List (Frame α)) : State α :=
  match rank.operator? c.rest with
  | some op => ⟨.enter (operandOf rank), c.skip 1, .operand rank left op c.position :: frames⟩
  | none => ⟨.give left, c, frames⟩

/-- The outcome of a number behind its last character. -/
def numberRead (start : Nat) (token : List Char) (c : Cursor) : Except Halt (α × Cursor) :=
  if token.isEmpty then .error ⟨.failed (.malformed .missingNumber start), c⟩
  else
    match Literal.mantissa? token with
    | some x => .ok (m.number x, c)
    | none => .error ⟨.failed (.malformed (.invalidNumber token) start), c⟩

/-- One round of the loop over the characters of a number. -/
def scan (start : Nat) (token : List Char) (c : Cursor) (frames : List (Frame α)) : State α :=
  match c.rest with
  | d :: _ =>
    if isNumeral d then ⟨.scan start (token ++ [d]), c.skip 1, frames⟩
    else .after (numberRead m start token c) frames
  | [] => .after (numberRead m start token c) frames

/-- Steps over the closing parenthesis behind a value. -/
def closing (fault : Fault) (r : α × Cursor) : Except Halt (α × Cursor) :=
  (closeParen fault r.2).map fun c => (r.1, c)

/-- An activation goes on with the value that it has waited for. -/
def resume : Frame α → α → Cursor → List (Frame α) → State α
  | .whole, value, c, frames => .after (atEnd (value, c)) frames
  | .expression, value, c, frames => ⟨.give value, c, frames⟩
  | .first rank, value, c, frames => ⟨.loop rank value, c, frames⟩
  | .operand rank left op position, value, c, frames =>
    match m.binary op position left value with
    | .ok result => ⟨.loop rank result, c, frames⟩
    | .error failure => ⟨.raise failure, c, frames⟩
  | .base, value, c, frames =>
    match c.rest with
    | '^' :: _ => ⟨.enter .signed, c.skip 1, .exponent value :: frames⟩
    | _ => ⟨.give value, c, frames⟩
  | .exponent base, value, c, frames => ⟨.give (m.power base value), c, frames⟩
  | .sign negative, value, c, frames => ⟨.give (if negative then m.negate value else value), c, frames⟩
  | .group, value, c, frames => .after (closing .unclosedGroup (value, c)) frames
  | .word, value, c, frames => ⟨.give value, c, frames⟩
  | .argument f, value, c, frames =>
    .after ((closing (.unclosedCall f) (value, c)).bind fun r => settle r.2 (m.call f r.1)) frames

/-- The next state, unless the parser of the whole text has ended. -/
def step : State α → Option (State α)
  | ⟨.enter p, c, frames⟩ => some (enter m p c frames)
  | ⟨.loop rank left, c, frames⟩ => some (loop rank left c frames)
  | ⟨.scan start token, c, frames⟩ => some (scan m start token c frames)
  | ⟨.give value, c, frame :: frames⟩ => some (resume m frame value c frames)
  | ⟨.raise failure, c, _ :: frames⟩ => some ⟨.raise failure, c, frames⟩
  | ⟨.give _, _, []⟩ => none
  | ⟨.raise _, _, []⟩ => none

theorem enter_signed_of_head {c : Cursor} (frames : List (Frame α)) (hminus : c.rest.head? ≠ some '-')
    (hplus : c.rest.head? ≠ some '+') : enter m .signed c frames = ⟨.enter .atom, c, .sign false :: frames⟩ := by
  simp only [enter]
  split
  · next hrest =>
    rw [hrest] at hminus
    exact absurd rfl hminus
  · next hrest =>
    rw [hrest] at hplus
    exact absurd rfl hplus
  · rfl

theorem enter_atom_of_head {c : Cursor} (frames : List (Frame α)) (hhead : c.rest.head? ≠ some '(') :
    enter m .atom c frames = word m c frames := by
  simp only [enter]
  split
  · next hrest =>
    rw [hrest] at hhead
    exact absurd rfl hhead
  · rfl

theorem opening_cases (frame : Frame α) (c : Cursor) (frames : List (Frame α)) :
    nestingLimit ≤ c.depth ∧ opening frame c frames = ⟨.raise (.malformed .tooDeep c.position), c, frames⟩ ∨
      c.depth < nestingLimit ∧ opening frame c frames = ⟨.enter .expression, c.opened, frame :: frames⟩ := by
  unfold opening
  by_cases hfull : nestingLimit ≤ c.depth
  · rw [openParen_of_le hfull]
    exact Or.inl ⟨hfull, rfl⟩
  · have hless := Nat.lt_of_not_le hfull
    rw [openParen_of_lt hless]
    exact Or.inr ⟨hless, rfl⟩

theorem closing_cases (fault : Fault) (value : α) (c : Cursor) :
    (∃ rest, c.rest = ')' :: rest ∧ closing fault (value, c) = .ok (value, c.closed)) ∨
      closing fault (value, c) = refuse fault c := by
  unfold closing
  by_cases hhead : c.rest.head? = some ')'
  · obtain ⟨rest, hrest⟩ := List.head?_eq_some_iff.mp hhead
    rw [closeParen_of_cons fault hrest]
    exact Or.inl ⟨rest, hrest, rfl⟩
  · rw [closeParen_of_head fault hhead]
    exact Or.inr rfl

/-- A group ends like a call, with its value as it is. -/
theorem resume_group (value : α) (c : Cursor) (frames : List (Frame α)) :
    resume m .group value c frames = .after ((closing .unclosedGroup (value, c)).bind .ok) frames :=
  congrArg (State.after · frames) (bind_pure (closing .unclosedGroup (value, c))).symm

/-! ## Runs -/

/-- The second state is reached from the first one in exactly so many steps. -/
def Runs : Nat → State α → State α → Prop
  | 0, s, t => s = t
  | n + 1, s, t => ∃ s', step m s = some s' ∧ Runs n s' t

def Reaches (s t : State α) : Prop :=
  ∃ n, Runs m n s t

variable {m} {s s' t : State α} {frame : Frame α} {frames : List (Frame α)}

theorem Runs.trans {k n : Nat} (h : Runs m k s s') (h' : Runs m n s' t) : Runs m (k + n) s t := by
  induction k generalizing s with
  | zero =>
    obtain rfl : s = s' := h
    rwa [Nat.zero_add]
  | succ k ih =>
    obtain ⟨next, hstep, hrest⟩ := h
    rw [Nat.add_right_comm]
    exact ⟨next, hstep, ih hrest⟩

theorem Runs.split {k n : Nat} (h : Runs m (k + n) s t) : ∃ s', Runs m k s s' ∧ Runs m n s' t := by
  induction k generalizing s with
  | zero => exact ⟨s, rfl, by rwa [Nat.zero_add] at h⟩
  | succ k ih =>
    rw [Nat.add_right_comm] at h
    obtain ⟨next, hstep, hrest⟩ := h
    obtain ⟨s', hfirst, hsecond⟩ := ih hrest
    exact ⟨s', ⟨next, hstep, hfirst⟩, hsecond⟩

theorem Runs.unique {n : Nat} (h : Runs m n s s') (h' : Runs m n s t) : s' = t := by
  induction n generalizing s with
  | zero => exact (show s = s' from h).symm.trans h'
  | succ n ih =>
    obtain ⟨next, hstep, hrest⟩ := h
    obtain ⟨next', hstep', hrest'⟩ := h'
    obtain rfl := Option.some.inj (hstep.symm.trans hstep')
    exact ih hrest hrest'

theorem Runs.final_unique {k n : Nat} (h : Runs m k s s') (h' : Runs m n s t) (hs : step m s' = none)
    (ht : step m t = none) : s' = t := by
  have hstop : ∀ {n : Nat} {u v : State α}, step m u = none → Runs m n u v → u = v := by
    intro n u v hu hrun
    cases n with
    | zero => exact hrun
    | succ n =>
      obtain ⟨next, hstep, -⟩ := hrun
      rw [hu] at hstep
      cases hstep
  rcases Nat.le_total k n with hle | hle
  · obtain ⟨more, rfl⟩ := Nat.exists_eq_add_of_le hle
    obtain ⟨middle, hfirst, hsecond⟩ := h'.split
    obtain rfl := h.unique hfirst
    exact hstop hs hsecond
  · obtain ⟨more, rfl⟩ := Nat.exists_eq_add_of_le hle
    obtain ⟨middle, hfirst, hsecond⟩ := h.split
    obtain rfl := h'.unique hfirst
    exact (hstop ht hsecond).symm

theorem Runs.invariant {P : State α → Prop} (hstep : ∀ s s', P s → step m s = some s' → P s') {n : Nat}
    (h : Runs m n s t) (hs : P s) : P t := by
  induction n generalizing s with
  | zero => exact (show s = t from h) ▸ hs
  | succ n ih =>
    obtain ⟨next, hnext, hrest⟩ := h
    exact ih hrest (hstep s next hs hnext)

theorem Reaches.refl (s : State α) : Reaches m s s :=
  ⟨0, rfl⟩

theorem Reaches.trans (h : Reaches m s s') (h' : Reaches m s' t) : Reaches m s t := by
  obtain ⟨k, h⟩ := h
  obtain ⟨n, h'⟩ := h'
  exact ⟨k + n, h.trans h'⟩

theorem Reaches.step (s' : State α) (hstep : step m s = some s') (h : Reaches m s' t) : Reaches m s t := by
  obtain ⟨n, h⟩ := h
  exact ⟨n + 1, s', hstep, h⟩

/-- A failure goes on through the activation on top of the stack, a value is handed to it. -/
theorem Reaches.bind {x : Except Halt (α × Cursor)} {f : α × Cursor → Except Halt (α × Cursor)}
    (h : Reaches m s (.after x (frame :: frames)))
    (hf : ∀ r, x = .ok r → Reaches m (resume m frame r.1 r.2 frames) (.after (f r) frames)) :
    Reaches m s (.after (x.bind f) frames) := by
  refine h.trans ?_
  cases x with
  | ok r => exact .step _ rfl (hf r rfl)
  | error halt => exact .step _ rfl (.refl _)

end

end Machine

end Reckoner.Expression
