import Reckoner.Proofs.Expression.Balance

/-!
# Termination within a fixed stack

Most procedures of the grammar call the next one without taking anything from the text, so neither the text nor the stack
bounds a run alone. The weight of a state adds the two up: a character weighs more than everything that the machine can do
before it takes the next one. Every step makes a state lighter. The depth of the cursor bounds the stack, since the frames
come in the order of the grammar and only an open parenthesis starts it anew.
-/

namespace Reckoner.Expression.Machine

set_option autoImplicit false

variable {α : Type} {m : Meaning α} {text : List Char} {c : Cursor} {frame : Frame α} {frames : List (Frame α)}

/-! ## Weights -/

/-- A bound for the steps from the entry of a procedure up to the next character that is taken. -/
def Procedure.weight : Procedure → Nat
  | .expression => 16
  | .chain .sum => 14
  | .chain .product => 11
  | .power => 8
  | .signed => 6
  | .atom => 4
  | .number => 2
  | .call _ => 1

def Control.weight : Control α → Nat
  | .enter p => p.weight
  | .loop _ _ => 1
  | .scan _ _ => 1
  | .give _ => 0
  | .raise _ => 0

/-- A chain goes on with its loop, which is a step of its own. -/
def Frame.weight : Frame α → Nat
  | .first _ => 2
  | .operand _ _ _ _ => 2
  | _ => 1

def load : List (Frame α) → Nat
  | [] => 0
  | frame :: frames => frame.weight + load frames

theorem load_cons (frame : Frame α) (frames : List (Frame α)) : load (frame :: frames) = frame.weight + load frames :=
  rfl

/-- A bound for the steps up to the end of the run. -/
def State.weight (s : State α) : Nat :=
  17 * s.cursor.rest.length + s.control.weight + load s.frames

/-- A state that a step may lead to: it is lighter, and its cursor stands at the same place or behind it. -/
def State.Advances (s s' : State α) : Prop :=
  s'.weight < s.weight ∧ s.cursor.position ≤ s'.cursor.position

theorem length_skip (c : Cursor) (count : Nat) : (c.skip count).rest.length = c.rest.length - count :=
  List.length_drop

theorem weight_operandOf (rank : Rank) : (operandOf rank).weight + 3 = (Procedure.chain rank).weight := by
  cases rank <;> rfl

/-! ## Steps -/

/-- The end of an activation is an advance unless the text gets longer, for a value or a failure weighs nothing. -/
theorem advances_after {s : State α} (outcome : Except Halt (α × Cursor))
    (hrest : (cursorOf outcome).rest.length ≤ s.cursor.rest.length)
    (hposition : s.cursor.position ≤ (cursorOf outcome).position)
    (hweight : load frames < s.control.weight + load s.frames) : s.Advances (.after outcome frames) := by
  have hweight' : (State.after outcome frames).weight = 17 * (cursorOf outcome).rest.length + load frames := by
    cases outcome <;> rfl
  have hposition' : (State.after outcome frames).cursor = cursorOf outcome := by
    cases outcome <;> rfl
  refine ⟨?_, hposition' ▸ hposition⟩
  rw [hweight', State.weight]
  omega

/-- The parenthesis that is taken pays for the expression behind it. -/
theorem opening_advances {p : Procedure} {c' : Cursor} {rest : List Char} (hlength : c'.rest.length ≤ c.rest.length)
    (hposition : c.position ≤ c'.position) (hrest : c'.rest = '(' :: rest) (hprocedure : 0 < p.weight)
    (hframe : frame.weight = 1) : State.Advances ⟨.enter p, c, frames⟩ (opening frame c' frames) := by
  rcases opening_cases frame c' frames with ⟨-, hopening⟩ | ⟨-, hopening⟩
  · rw [hopening]
    exact advances_after (refuse .tooDeep c') hlength hposition (Nat.lt_add_of_pos_left hprocedure)
  · have hexpression : Procedure.expression.weight = 16 := rfl
    rw [hopening]
    refine ⟨?_, Nat.le_succ_of_le hposition⟩
    rw [hrest, List.length_cons] at hlength
    simp only [State.weight, Control.weight, hexpression, load_cons, hframe, Cursor.rest_opened hrest]
    omega

theorem word_advances : State.Advances ⟨.enter .atom, c, frames⟩ (word m c frames) := by
  unfold word
  cases Function.match? c.rest with
  | some f =>
    refine ⟨?_, Nat.le_refl _⟩
    simp only [State.weight, Control.weight, Procedure.weight, load_cons, Frame.weight]
    omega
  | none =>
    cases constant? c.rest with
    | some k =>
      refine ⟨?_, Nat.le_add_right _ _⟩
      simp only [State.weight, Control.weight, Procedure.weight, length_skip]
      omega
    | none =>
      refine ⟨?_, Nat.le_refl _⟩
      simp only [State.weight, Control.weight, Procedure.weight, load_cons, Frame.weight]
      omega

theorem enter_advances (p : Procedure) : State.Advances ⟨.enter p, c, frames⟩ (enter m p c frames) := by
  cases p with
  | expression =>
    refine ⟨?_, Nat.le_refl _⟩
    simp only [enter, State.weight, Control.weight, Procedure.weight, load_cons, Frame.weight]
    omega
  | chain rank =>
    have hoperand := weight_operandOf rank
    refine ⟨?_, Nat.le_refl _⟩
    simp only [enter, State.weight, Control.weight, load_cons, Frame.weight]
    omega
  | power =>
    refine ⟨?_, Nat.le_refl _⟩
    simp only [enter, State.weight, Control.weight, Procedure.weight, load_cons, Frame.weight]
    omega
  | signed =>
    have hsigned : ∀ (negative : Bool) (count : Nat),
        State.Advances ⟨.enter .signed, c, frames⟩ ⟨.enter .atom, c.skip count, .sign negative :: frames⟩ := by
      intro negative count
      refine ⟨?_, Nat.le_add_right _ _⟩
      simp only [State.weight, Control.weight, Procedure.weight, load_cons, Frame.weight, length_skip]
      omega
    simp only [enter]
    split
    · exact hsigned true 1
    · exact hsigned false 1
    · exact hsigned false 0
  | atom =>
    simp only [enter]
    split
    · next hrest => exact opening_advances (Nat.le_refl _) (Nat.le_refl _) hrest (by decide) rfl
    · exact word_advances
  | call f =>
    have hlength : (c.skip f.name.toList.length).rest.length ≤ c.rest.length := by
      rw [length_skip]
      exact Nat.sub_le _ _
    simp only [enter]
    split
    · next hrest => exact opening_advances hlength (Nat.le_add_right _ _) hrest Nat.one_pos rfl
    · exact advances_after (refuse (.unopenedCall f) _) hlength (Nat.le_add_right _ _) (Nat.lt_add_of_pos_left Nat.one_pos)
  | number =>
    refine ⟨?_, Nat.le_refl _⟩
    simp only [enter, State.weight, Control.weight, Procedure.weight]
    omega

theorem loop_advances (rank : Rank) (left : α) : State.Advances ⟨.loop rank left, c, frames⟩ (loop rank left c frames) := by
  unfold loop
  cases hoperator : rank.operator? c.rest with
  | none =>
    refine ⟨?_, Nat.le_refl _⟩
    simp only [State.weight, Control.weight]
    omega
  | some op =>
    obtain ⟨-, rest, hrest⟩ := Rank.operator?_eq_some hoperator
    have hoperand : (operandOf rank).weight ≤ 11 := by cases rank <;> decide
    refine ⟨?_, Nat.le_add_right _ _⟩
    simp only [State.weight, Control.weight, load_cons, Frame.weight, Cursor.rest_skip_one hrest]
    rw [hrest, List.length_cons]
    omega

theorem scan_advances (start : Nat) (token : List Char) :
    State.Advances ⟨.scan start token, c, frames⟩ (scan m start token c frames) := by
  have hread : State.Advances ⟨.scan start token, c, frames⟩ (.after (numberRead m start token c) frames) :=
    advances_after _ (by rw [cursorOf_numberRead]) (by rw [cursorOf_numberRead])
      (Nat.lt_add_of_pos_left Nat.one_pos)
  unfold scan
  split
  · next d rest hrest =>
    split
    · refine ⟨?_, Nat.le_add_right _ _⟩
      simp only [State.weight, Control.weight, Cursor.rest_skip_one hrest]
      rw [hrest, List.length_cons]
      omega
    · exact hread
  · exact hread

theorem weight_pos (frame : Frame α) : 0 < frame.weight := by
  cases frame <;> exact Nat.zero_lt_succ _

theorem load_lt (value : α) (frame : Frame α) (frames : List (Frame α)) :
    load frames < (Control.give value).weight + load (frame :: frames) := by
  rw [load_cons, Control.weight, Nat.zero_add]
  exact Nat.lt_add_of_pos_left (weight_pos frame)

theorem closing_advances {fault : Fault} {value : α} {f : α × Cursor → Except Halt (α × Cursor)}
    (hf : ∀ r, cursorOf (f r) = r.2) :
    State.Advances ⟨.give value, c, frame :: frames⟩ (.after ((closing fault (value, c)).bind f) frames) := by
  rcases closing_cases fault value c with ⟨rest, hrest, hclosing⟩ | hclosing
  · have hend : cursorOf (f (value, c.closed)) = c.closed := hf _
    have hlength : c.closed.rest.length ≤ c.rest.length := (length_skip c 1).trans_le (Nat.sub_le _ _)
    have hposition : c.position ≤ c.closed.position := Nat.le_succ _
    rw [← hend] at hlength hposition
    rw [hclosing]
    exact advances_after _ hlength hposition (load_lt value frame frames)
  · rw [hclosing]
    exact advances_after (refuse fault c) (Nat.le_refl _) (Nat.le_refl _) (load_lt value frame frames)

theorem resume_advances (frame : Frame α) (value : α) :
    State.Advances ⟨.give value, c, frame :: frames⟩ (resume m frame value c frames) := by
  have hload := load_lt value frame frames
  have hgive : ∀ result, State.Advances ⟨.give value, c, frame :: frames⟩ ⟨.give result, c, frames⟩ :=
    fun result => advances_after (.ok (result, c)) (Nat.le_refl _) (Nat.le_refl _) hload
  cases frame with
  | whole => exact advances_after _ (by rw [cursorOf_atEnd]) (by rw [cursorOf_atEnd]) hload
  | expression => exact hgive value
  | first rank =>
    refine ⟨?_, Nat.le_refl _⟩
    simp only [resume, State.weight, Control.weight, load_cons, Frame.weight]
    omega
  | operand rank left op position =>
    simp only [resume]
    split
    · refine ⟨?_, Nat.le_refl _⟩
      simp only [State.weight, Control.weight, load_cons, Frame.weight]
      omega
    · refine ⟨?_, Nat.le_refl _⟩
      simp only [State.weight, Control.weight, load_cons, Frame.weight]
      omega
  | base =>
    simp only [resume]
    split
    · next hrest =>
      refine ⟨?_, Nat.le_add_right _ _⟩
      simp only [State.weight, Control.weight, Procedure.weight, load_cons, Frame.weight, Cursor.rest_skip_one hrest]
      rw [hrest, List.length_cons]
      omega
    · exact hgive value
  | exponent base => exact hgive _
  | sign negative => exact hgive _
  | group =>
    rw [resume_group]
    exact closing_advances fun _ => rfl
  | word => exact hgive value
  | argument f => exact closing_advances fun _ => cursorOf_settle _ _

theorem step_advances {s s' : State α} (hstep : step m s = some s') : s.Advances s' := by
  obtain ⟨control, c, frames⟩ := s
  cases control with
  | enter p => exact Option.some.inj hstep ▸ enter_advances p
  | loop rank left => exact Option.some.inj hstep ▸ loop_advances rank left
  | scan start token => exact Option.some.inj hstep ▸ scan_advances start token
  | give value =>
    cases frames with
    | nil => cases hstep
    | cons frame frames => exact Option.some.inj hstep ▸ resume_advances frame value
  | raise failure =>
    cases frames with
    | nil => cases hstep
    | cons frame frames =>
      have hpos := weight_pos frame
      obtain rfl := Option.some.inj hstep
      refine ⟨?_, Nat.le_refl _⟩
      simp only [State.weight, Control.weight, load_cons]
      omega

theorem Runs.advances {n : Nat} {s t : State α} (h : Runs m n s t) :
    t.weight + n ≤ s.weight ∧ s.cursor.position ≤ t.cursor.position := by
  induction n generalizing s with
  | zero =>
    obtain rfl : s = t := h
    exact ⟨Nat.le_refl _, Nat.le_refl _⟩
  | succ n ih =>
    obtain ⟨next, hstep, hrest⟩ := h
    obtain ⟨hlighter, hforward⟩ := step_advances hstep
    obtain ⟨hweight, hposition⟩ := ih hrest
    exact ⟨by omega, hforward.trans hposition⟩

/-! ## Frames -/

def Frame.isExpression : Frame α → Bool
  | .expression => true
  | _ => false

/-- The activations of the procedure of an expression that have begun and not ended. -/
def State.activations (s : State α) : Nat :=
  match s.control with
  | .enter .expression => s.frames.countP Frame.isExpression + 1
  | _ => s.frames.countP Frame.isExpression

/-- How many procedures stand between an expression and the procedure. -/
def Procedure.height : Procedure → Nat
  | .expression => 0
  | .chain .sum => 1
  | .chain .product => 2
  | .power => 3
  | .signed => 4
  | .atom => 5
  | .call _ => 6
  | .number => 6

theorem height_operandOf (rank : Rank) : (operandOf rank).height = (Procedure.chain rank).height + 1 := by
  cases rank <;> rfl

theorem height_le (p : Procedure) : p.height ≤ 6 := by
  unfold Procedure.height
  split <;> decide

/-- Below an expression there is one activation of an expression for every open parenthesis. -/
theorem Awaits.expressions {p : Procedure} (h : Awaits p frames) :
    frames.countP Frame.isExpression + (if p = .expression then 1 else 0) = openings frames + 1 := by
  have hoperand : ∀ rank, operandOf rank ≠ .expression := by
    intro rank
    cases rank <;> decide
  induction h with
  | whole => rfl
  | expression h ih =>
    rw [openings_of_not_opens rfl, List.countP_cons_of_pos rfl]
    simpa using ih
  | first h ih | operand h ih =>
    rw [openings_of_not_opens rfl, List.countP_cons_of_neg Bool.false_ne_true, if_neg (hoperand _)]
    simpa using ih
  | base h ih | exponent h ih | sign h ih | call h ih | number h ih =>
    rw [openings_of_not_opens rfl, List.countP_cons_of_neg Bool.false_ne_true]
    simpa using ih
  | group h ih | argument h ih =>
    rw [openings_of_opens rfl, List.countP_cons_of_neg Bool.false_ne_true]
    simpa using ih

/-- Between two parentheses the stack has no more frames than the grammar has levels. -/
theorem Awaits.length_le {p : Procedure} (h : Awaits p frames) : frames.length ≤ 7 * openings frames + 1 + p.height := by
  induction h with
  | whole => exact Nat.le_refl 1
  | expression h ih | base h ih | exponent h ih | sign h ih | call h ih | number h ih =>
    rw [openings_of_not_opens rfl, List.length_cons]
    simp only [Procedure.height] at ih ⊢
    omega
  | first h ih | operand h ih =>
    rw [openings_of_not_opens rfl, List.length_cons, height_operandOf]
    omega
  | group h ih | argument h ih =>
    rw [openings_of_opens rfl, List.length_cons]
    simp only [Procedure.height] at ih ⊢
    omega

theorem Waiting.expressions_le (h : Waiting frames) : frames.countP Frame.isExpression ≤ openings frames + 1 := by
  rcases h with rfl | ⟨p, h⟩
  · exact Nat.zero_le _
  · exact h.expressions ▸ Nat.le_add_right _ _

theorem Waiting.length_le (h : Waiting frames) : frames.length ≤ 7 * (openings frames + 1) := by
  rcases h with rfl | ⟨p, h⟩
  · exact Nat.zero_le _
  · have hframes := h.length_le
    have hheight := height_le p
    omega

theorem State.Sane.waiting {s : State α} (h : s.Sane text) : Waiting s.frames ∧ openings s.frames ≤ s.cursor.depth := by
  obtain ⟨control, c, frames⟩ := s
  obtain ⟨-, hstacked⟩ := h
  cases control with
  | enter p => exact ⟨hstacked.2.1.waiting, hstacked.2.2.le⟩
  | loop rank left => exact ⟨hstacked.1.waiting, hstacked.2.le⟩
  | scan start token => exact ⟨hstacked.1.waiting, hstacked.2.le⟩
  | give value => exact ⟨hstacked.1, hstacked.2.le⟩
  | raise failure => exact hstacked

/-- The stack stays below what the nesting limit lets it grow to. -/
theorem State.Sane.stack_le {s : State α} (h : s.Sane text) : s.frames.length ≤ 7 * (nestingLimit + 1) := by
  obtain ⟨hwaiting, hopenings⟩ := h.waiting
  have hframes := hwaiting.length_le
  have hdepth := h.balanced.depth_le
  omega

theorem State.Sane.activations_le {s : State α} (h : s.Sane text) : s.activations ≤ nestingLimit + 1 := by
  obtain ⟨hwaiting, hopenings⟩ := h.waiting
  have hexpressions := hwaiting.expressions_le
  have hdepth := h.balanced.depth_le
  unfold activations
  split
  · next hcontrol =>
    have hstacked := h.stacked
    simp only [Stacked, hcontrol] at hstacked
    have hexact := hstacked.2.1.expressions
    rw [if_pos rfl] at hexact
    omega
  · omega

/-! ## Runs -/

/-- The chain or the number whose loop the machine is at the head of. -/
def Control.loop? : Control α → Option Procedure
  | .loop rank _ => some (.chain rank)
  | .scan _ _ => some .number
  | _ => none

theorem weight_of_loop {control : Control α} {p : Procedure} (h : control.loop? = some p) : control.weight = 1 := by
  cases control <;> first | rfl | cases h

/-- An activation that comes to the head of its loop again has taken some of the text. -/
theorem Runs.round {k n : Nat} {s t : State α} {p q : Procedure} (hreach : Runs m k (.start text) s)
    (hround : Runs m (n + 1) s t) (hs : s.control.loop? = some p) (ht : t.control.loop? = some q)
    (hframes : s.frames = t.frames) : s.cursor.position < t.cursor.position := by
  have hweight := hround.advances.1
  simp only [State.weight, weight_of_loop hs, weight_of_loop ht, hframes] at hweight
  have hless : t.cursor.rest.length < s.cursor.rest.length := by omega
  rw [hreach.sane.balanced.rest_eq, (hreach.trans hround).sane.balanced.rest_eq, List.length_drop, List.length_drop] at hless
  omega

theorem weight_start (text : List Char) : (State.start (α := α) text).weight = 17 * (text.length + 1) :=
  rfl

/-- The machine halts after no more steps than the weight of its first state. -/
theorem halts (m : Meaning α) (text : List Char) :
    ∃ n ≤ 17 * (text.length + 1), Runs m n (.start text) (.after (parse m text) []) := by
  obtain ⟨n, hrun⟩ := start_reaches m text (Nat.lt_succ_self nestingLimit)
  have hweight := hrun.advances.1
  rw [weight_start] at hweight
  exact ⟨n, (Nat.le_add_left n _).trans hweight, hrun⟩

/--
The parser halts on every text and within a stack that the text has no part in. No more activations of the procedure of an
expression are nested than one above the nesting limit, and no more activations at all than seven for each of them. Whoever
comes to the head of the same loop again has gone on in the text. So levels above the limit are as good as no bound on the
stack, and no parser with levels enough ever runs out of them.
-/
theorem parse_within_stack (m : Meaning α) (text : List Char) :
    (∃ n ≤ 17 * (text.length + 1), Runs m n (.start text) (.after (parse m text) []) ∧
      step m (.after (parse m text) []) = none) ∧
    (∀ n s, Runs m n (.start text) s →
      s.activations ≤ nestingLimit + 1 ∧ s.frames.length ≤ 7 * (nestingLimit + 1)) ∧
    (∀ k n s t p, Runs m k (.start text) s → Runs m (n + 1) s t → s.control.loop? = some p →
      t.control.loop? = some p → s.frames = t.frames → s.cursor.position < t.cursor.position) ∧
    (∀ levels, nestingLimit < levels → parseWith m levels text = parse m text) ∧
    ∀ h, parse m text = .error h → h.cause ≠ .exhausted := by
  refine ⟨?_, fun n s hrun => ⟨hrun.sane.activations_le, hrun.sane.stack_le⟩,
    fun k n s t p hreach hround hs ht hframes => hreach.round hround hs ht hframes,
    fun levels hlevels => parseWith_eq m text hlevels, fun h hparse hcause => ?_⟩
  · obtain ⟨n, hn, hrun⟩ := halts m text
    exact ⟨n, hn, hrun, step_after _⟩
  · obtain ⟨failure, hfailed⟩ := parseWith_cause text (Nat.lt_succ_self nestingLimit) hparse
    rw [hcause] at hfailed
    cases hfailed

/-- In `11` the loop over the digits begins behind seven steps, and its second round one character further on. -/
theorem parse_within_stack_eleven : ∃ s t : State Tree, Runs trees 7 (.start ['1', '1']) s ∧ Runs trees 1 s t ∧
    s.cursor.position < t.cursor.position := by
  have hreach : Runs trees 7 (.start ['1', '1']) ⟨.scan 0 [], .start ['1', '1'],
      [.word, .sign false, .base, .first .product, .first .sum, .expression, .whole]⟩ :=
    ⟨_, rfl, _, rfl, _, rfl, _, rfl, _, rfl, _, rfl, _, rfl, rfl⟩
  have hround : ∀ frames : List (Frame Tree), Runs trees 1 ⟨.scan 0 [], .start ['1', '1'], frames⟩
      ⟨.scan 0 ['1'], (Cursor.start ['1', '1']).skip 1, frames⟩ := fun _ => ⟨_, rfl, rfl⟩
  exact ⟨_, _, hreach, hround _,
    (parse_within_stack trees ['1', '1']).2.2.1 7 0 _ _ .number hreach (hround _) rfl rfl rfl⟩

end Reckoner.Expression.Machine
