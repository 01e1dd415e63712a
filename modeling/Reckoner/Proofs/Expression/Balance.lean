import Reckoner.Proofs.Expression.Simulation

/-!
# Cursor and stack in step

At every step of the machine the cursor stands in the text, its depth is the number of parentheses that are open behind the
text in front of it, and no piece of the text from the start to the cursor leaves more of them open than the nesting limit.
The frames on the stack fit together, and as many of them have opened a parenthesis as are open. A failure leaves the depth
as it is while the stack is cleared.
-/

namespace Reckoner.Expression

set_option autoImplicit false

/-! ## Balance -/

/-- The opening parentheses of a text less its closing ones. -/
def unclosed (text : List Char) : Int :=
  (text.count '(' : Int) - text.count ')'

theorem unclosed_append (front back : List Char) : unclosed (front ++ back) = unclosed front + unclosed back := by
  simp only [unclosed, List.count_append]
  omega

theorem unclosed_open : unclosed ['('] = 1 := rfl

theorem unclosed_close : unclosed [')'] = -1 := rfl

theorem unclosed_plain {c : Char} (h : c ≠ '(' ∧ c ≠ ')') : unclosed [c] = 0 := by
  simp [unclosed, h.1, h.2]

/-- The cursor stands in the text, at the depth of the text in front of it, and was never deeper than the limit. -/
structure Cursor.Balanced (text : List Char) (c : Cursor) : Prop where
  position_le : c.position ≤ text.length
  rest_eq : c.rest = text.drop c.position
  depth_eq : (c.depth : Int) = unclosed (text.take c.position)
  bounded : ∀ k ≤ c.position, 0 ≤ unclosed (text.take k) ∧ unclosed (text.take k) ≤ nestingLimit

namespace Cursor.Balanced

variable {text : List Char} {c : Cursor}

theorem start (text : List Char) : (Cursor.start text).Balanced text := by
  refine ⟨Nat.zero_le _, rfl, rfl, fun k hk => ?_⟩
  obtain rfl : k = 0 := Nat.le_zero.mp hk
  exact ⟨Int.le_refl 0, Int.natCast_nonneg _⟩

theorem depth_le (h : c.Balanced text) : c.depth ≤ nestingLimit := by
  have hbound := (h.bounded c.position (Nat.le_refl _)).2
  rw [← h.depth_eq] at hbound
  exact Int.ofNat_le.mp hbound

theorem take_succ (h : c.Balanced text) {d : Char} {rest : List Char} (hrest : c.rest = d :: rest) :
    text.take (c.position + 1) = text.take c.position ++ [d] := by
  have hdrop : text.drop c.position = d :: rest := h.rest_eq ▸ hrest
  rw [List.take_add, hdrop, List.take_succ_cons, List.take_zero]

/-- One character on, with the depth that the character makes. -/
theorem advance (h : c.Balanced text) {d : Char} {rest : List Char} (hrest : c.rest = d :: rest) (depth : Nat)
    (hdepth : (depth : Int) = c.depth + unclosed [d]) (hlimit : depth ≤ nestingLimit) :
    Balanced text { c.skip 1 with depth := depth } := by
  have htake := h.take_succ hrest
  have hunclosed : (depth : Int) = unclosed (text.take (c.position + 1)) := by
    rw [htake, unclosed_append, ← h.depth_eq, hdepth]
  have hlength : c.position + (rest.length + 1) = text.length := by
    have hlength := congrArg List.length (h.rest_eq.symm.trans hrest)
    have hle := h.position_le
    rw [List.length_drop, List.length_cons] at hlength
    omega
  refine ⟨?_, ?_, hunclosed, fun k hk => ?_⟩
  · change c.position + 1 ≤ text.length
    omega
  · change c.rest.drop 1 = text.drop (c.position + 1)
    rw [h.rest_eq, List.drop_drop]
  · rcases Nat.lt_or_eq_of_le (show k ≤ c.position + 1 from hk) with hless | rfl
    · exact h.bounded k (Nat.lt_succ_iff.mp hless)
    · rw [← hunclosed]
      exact ⟨Int.natCast_nonneg _, Int.ofNat_le.mpr hlimit⟩

theorem skip_one (h : c.Balanced text) {d : Char} {rest : List Char} (hrest : c.rest = d :: rest)
    (hplain : d ≠ '(' ∧ d ≠ ')') : (c.skip 1).Balanced text :=
  h.advance hrest c.depth (by rw [unclosed_plain hplain, Int.add_zero]) h.depth_le

/-- Over a word without parentheses. -/
theorem skip (h : c.Balanced text) {word rest : List Char} (hrest : c.rest = word ++ rest)
    (hplain : ∀ d ∈ word, d ≠ '(' ∧ d ≠ ')') : (c.skip word.length).Balanced text := by
  induction word generalizing c with
  | nil => exact h
  | cons d word ih =>
    obtain ⟨hd, hword⟩ := List.forall_mem_cons.mp hplain
    have hmore := ih (h.skip_one hrest hd) (Cursor.rest_skip_one hrest) hword
    rwa [Cursor.skip_skip, Nat.add_comm] at hmore

theorem skip_name (h : c.Balanced text) {f : Function} (hopens : f.opens c.rest = true) :
    (c.skip f.name.toList.length).Balanced text := by
  obtain ⟨name, rest, hrest⟩ := (opens_iff f c.rest).mp hopens
  exact name.length_text ▸ h.skip hrest name.ne_paren

theorem opened (h : c.Balanced text) {rest : List Char} (hrest : c.rest = '(' :: rest) (hless : c.depth < nestingLimit) :
    c.opened.Balanced text :=
  h.advance hrest (c.depth + 1) (by rw [unclosed_open, Int.natCast_add]; rfl) hless

theorem closed (h : c.Balanced text) {rest : List Char} (hrest : c.rest = ')' :: rest) (hpos : 0 < c.depth) :
    c.closed.Balanced text := by
  have hle := h.depth_le
  exact h.advance hrest (c.depth - 1) (by rw [unclosed_close]; omega) (by omega)

end Cursor.Balanced

theorem constant?_eq_some {text : List Char} {k : Constant} (h : constant? text = some k) :
    ∃ rest, text = k.word ++ rest := by
  unfold constant? at h
  split at h
  · obtain rfl := Option.some.inj h
    exact ⟨_, rfl⟩
  · split at h
    · cases h
    · obtain rfl := Option.some.inj h
      exact ⟨_, rfl⟩
  · obtain rfl := Option.some.inj h
    exact ⟨[], rfl⟩
  · cases h

theorem Constant.ne_paren (k : Constant) : ∀ c ∈ k.word, c ≠ '(' ∧ c ≠ ')' := by
  cases k <;> simp [Constant.word]

theorem Operator.ne_paren (op : Operator) : op.symbol ≠ '(' ∧ op.symbol ≠ ')' := by
  cases op <;> decide

namespace Machine

variable {α : Type} {m : Meaning α} {text : List Char} {c : Cursor} {frame : Frame α} {frames : List (Frame α)}

/-! ## Stacks -/

/-- The frames wait for an activation of the procedure. -/
inductive Awaits : Procedure → List (Frame α) → Prop where
  | whole : Awaits .expression [.whole]
  | expression {frames : List (Frame α)} (h : Awaits .expression frames) : Awaits (.chain .sum) (.expression :: frames)
  | first {rank : Rank} {frames : List (Frame α)} (h : Awaits (.chain rank) frames) :
      Awaits (operandOf rank) (.first rank :: frames)
  | operand {rank : Rank} {left : α} {op : Operator} {position : Nat} {frames : List (Frame α)}
      (h : Awaits (.chain rank) frames) : Awaits (operandOf rank) (.operand rank left op position :: frames)
  | base {frames : List (Frame α)} (h : Awaits .power frames) : Awaits .signed (.base :: frames)
  | exponent {base : α} {frames : List (Frame α)} (h : Awaits .power frames) : Awaits .signed (.exponent base :: frames)
  | sign {negative : Bool} {frames : List (Frame α)} (h : Awaits .signed frames) : Awaits .atom (.sign negative :: frames)
  | group {frames : List (Frame α)} (h : Awaits .atom frames) : Awaits .expression (.group :: frames)
  | call {f : Function} {frames : List (Frame α)} (h : Awaits .atom frames) : Awaits (.call f) (.word :: frames)
  | number {frames : List (Frame α)} (h : Awaits .atom frames) : Awaits .number (.word :: frames)
  | argument {f : Function} {frames : List (Frame α)} (h : Awaits (.call f) frames) :
      Awaits .expression (.argument f :: frames)

/-- Nothing waits any more, or the frames wait for some procedure. -/
def Waiting (frames : List (Frame α)) : Prop :=
  frames = [] ∨ ∃ p, Awaits p frames

theorem Awaits.waiting {p : Procedure} (h : Awaits p frames) : Waiting frames :=
  Or.inr ⟨p, h⟩

theorem Awaits.tail {p : Procedure} (h : Awaits p (frame :: frames)) : Waiting frames := by
  cases h with
  | whole => exact Or.inl rfl
  | expression h | first h | operand h | base h | exponent h | sign h | group h | call h | number h | argument h =>
    exact h.waiting

theorem Waiting.tail (h : Waiting (frame :: frames)) : Waiting frames := by
  rcases h with hnil | ⟨p, h⟩
  · cases hnil
  · exact h.tail

/-- Whether the activation has opened a parenthesis. -/
def Frame.opens : Frame α → Bool
  | .group => true
  | .argument _ => true
  | _ => false

/-- The frames that have opened a parenthesis. -/
def openings (frames : List (Frame α)) : Nat :=
  frames.countP Frame.opens

theorem openings_of_opens (h : frame.opens = true) : openings (frame :: frames) = openings frames + 1 :=
  List.countP_cons_of_pos h

theorem openings_of_not_opens (h : frame.opens = false) : openings (frame :: frames) = openings frames :=
  List.countP_cons_of_neg (by simp [h])

/-! ## States -/

/-- A call is entered in front of the name of its function. -/
def Procedure.Fits : Procedure → List Char → Prop
  | .call f, rest => f.opens rest = true
  | _, _ => True

/-- The stack and the depth go with what the machine is about to do. -/
def State.Stacked (s : State α) : Prop :=
  match s.control with
  | .enter p => p.Fits s.cursor.rest ∧ Awaits p s.frames ∧ openings s.frames = s.cursor.depth
  | .loop rank _ => Awaits (.chain rank) s.frames ∧ openings s.frames = s.cursor.depth
  | .scan _ _ => Awaits .number s.frames ∧ openings s.frames = s.cursor.depth
  | .give _ => Waiting s.frames ∧ openings s.frames = s.cursor.depth
  | .raise _ => Waiting s.frames ∧ openings s.frames ≤ s.cursor.depth

structure State.Sane (text : List Char) (s : State α) : Prop where
  balanced : s.cursor.Balanced text
  stacked : s.Stacked

theorem start_sane (text : List Char) : State.Sane (α := α) text (.start text) :=
  ⟨.start text, trivial, .whole, rfl⟩

/-- Where a value or a failure stands. -/
def cursorOf : Except Halt (α × Cursor) → Cursor
  | .ok r => r.2
  | .error h => h.cursor

theorem after_sane {outcome : Except Halt (α × Cursor)} (hbalanced : (cursorOf outcome).Balanced text)
    (hwaiting : Waiting frames) (hopenings : openings frames = (cursorOf outcome).depth) :
    (State.after outcome frames).Sane text := by
  cases outcome with
  | ok r => exact ⟨hbalanced, hwaiting, hopenings⟩
  | error h => exact ⟨hbalanced, hwaiting, hopenings.le⟩

theorem cursorOf_settle (c : Cursor) (outcome : Except Failure α) : cursorOf (settle c outcome) = c := by
  cases outcome <;> rfl

theorem cursorOf_atEnd (value : α) (c : Cursor) : cursorOf (atEnd (value, c)) = c := by
  unfold atEnd
  split <;> rfl

theorem cursorOf_numberRead (start : Nat) (token : List Char) (c : Cursor) : cursorOf (numberRead m start token c) = c := by
  unfold numberRead
  split
  · rfl
  · split <;> rfl

/-! ## Steps -/

theorem fits_operandOf (rank : Rank) (rest : List Char) : (operandOf rank).Fits rest := by
  cases rank <;> trivial

theorem opening_sane (hbalanced : c.Balanced text) {rest : List Char} (hrest : c.rest = '(' :: rest)
    (hopens : frame.opens = true) (hawaits : Awaits .expression (frame :: frames)) (hopenings : openings frames = c.depth) :
    (opening frame c frames).Sane text := by
  rcases opening_cases frame c frames with ⟨-, hopening⟩ | ⟨hless, hopening⟩
  · exact hopening ▸ ⟨hbalanced, hawaits.tail, hopenings.le⟩
  · exact hopening ▸ ⟨hbalanced.opened hrest hless, trivial, hawaits,
      (openings_of_opens hopens).trans (congrArg (· + 1) hopenings)⟩

theorem word_sane (hbalanced : c.Balanced text) (hawaits : Awaits .atom frames) (hopenings : openings frames = c.depth) :
    (word m c frames).Sane text := by
  have hword : openings (.word :: frames) = c.depth := (openings_of_not_opens rfl).trans hopenings
  unfold word
  cases hmatch : Function.match? c.rest with
  | some f => exact ⟨hbalanced, (match?_eq_some_iff f c.rest).mp hmatch, .call hawaits, hword⟩
  | none =>
    cases hconstant : constant? c.rest with
    | some k =>
      obtain ⟨rest, hrest⟩ := constant?_eq_some hconstant
      exact ⟨hbalanced.skip hrest k.ne_paren, hawaits.waiting, hopenings⟩
    | none => exact ⟨hbalanced, trivial, .number hawaits, hword⟩

theorem enter_sane {p : Procedure} (hbalanced : c.Balanced text) (hfits : p.Fits c.rest) (hawaits : Awaits p frames)
    (hopenings : openings frames = c.depth) : (enter m p c frames).Sane text := by
  have hpushed : ∀ {frame : Frame α}, frame.opens = false → openings (frame :: frames) = c.depth :=
    fun hopens => (openings_of_not_opens hopens).trans hopenings
  cases p with
  | expression => exact ⟨hbalanced, trivial, .expression hawaits, hpushed rfl⟩
  | chain rank => exact ⟨hbalanced, fits_operandOf rank c.rest, .first hawaits, hpushed rfl⟩
  | power => exact ⟨hbalanced, trivial, .base hawaits, hpushed rfl⟩
  | signed =>
    simp only [enter]
    split
    · next hrest => exact ⟨hbalanced.skip_one hrest (by decide), trivial, .sign hawaits, hpushed rfl⟩
    · next hrest => exact ⟨hbalanced.skip_one hrest (by decide), trivial, .sign hawaits, hpushed rfl⟩
    · exact ⟨hbalanced, trivial, .sign hawaits, hpushed rfl⟩
  | atom =>
    simp only [enter]
    split
    · next hrest => exact opening_sane hbalanced hrest rfl (.group hawaits) hopenings
    · exact word_sane hbalanced hawaits hopenings
  | call f =>
    have hbehind := hbalanced.skip_name hfits
    simp only [enter]
    split
    · next hrest => exact opening_sane hbehind hrest rfl (.argument hawaits) hopenings
    · exact ⟨hbehind, hawaits.waiting, hopenings.le⟩
  | number => exact ⟨hbalanced, hawaits, hopenings⟩

theorem loop_sane {rank : Rank} {left : α} (hbalanced : c.Balanced text) (hawaits : Awaits (.chain rank) frames)
    (hopenings : openings frames = c.depth) : (loop rank left c frames).Sane text := by
  unfold loop
  cases hoperator : rank.operator? c.rest with
  | none => exact ⟨hbalanced, hawaits.waiting, hopenings⟩
  | some op =>
    obtain ⟨-, rest, hrest⟩ := Rank.operator?_eq_some hoperator
    exact ⟨hbalanced.skip_one hrest op.ne_paren, fits_operandOf rank _, .operand hawaits,
      (openings_of_not_opens rfl).trans hopenings⟩

theorem scan_sane {start : Nat} {token : List Char} (hbalanced : c.Balanced text) (hawaits : Awaits .number frames)
    (hopenings : openings frames = c.depth) : (scan m start token c frames).Sane text := by
  have hread : (State.after (numberRead m start token c) frames).Sane text :=
    after_sane (by rwa [cursorOf_numberRead]) hawaits.waiting (by rwa [cursorOf_numberRead])
  unfold scan
  split
  · next d rest hrest =>
    split
    · next hd =>
      have hplain : d ≠ '(' ∧ d ≠ ')' := by
        constructor <;> (rintro rfl; cases hd)
      exact ⟨hbalanced.skip_one hrest hplain, hawaits, hopenings⟩
    · exact hread
  · exact hread

/-- The closing parenthesis of an activation that has opened one. -/
theorem closing_sane {fault : Fault} {value : α} {f : α × Cursor → Except Halt (α × Cursor)} (hbalanced : c.Balanced text)
    (hwaiting : Waiting frames) (hopenings : openings frames + 1 = c.depth)
    (hf : ∀ r, cursorOf (f r) = r.2) :
    (State.after ((closing fault (value, c)).bind f) frames).Sane text := by
  rcases closing_cases fault value c with ⟨rest, hrest, hclosing⟩ | hclosing
  · have hclosed := hbalanced.closed hrest (by omega)
    have hdepth : openings frames = c.closed.depth := Nat.eq_sub_of_add_eq hopenings
    have hend : cursorOf (f (value, c.closed)) = c.closed := hf _
    rw [hclosing]
    exact after_sane (by rwa [← hend] at hclosed) hwaiting (hdepth.trans (congrArg Cursor.depth hend.symm))
  · rw [hclosing]
    exact ⟨hbalanced, hwaiting, (Nat.le_succ _).trans hopenings.le⟩

theorem resume_sane {p : Procedure} {value : α} (hbalanced : c.Balanced text) (hawaits : Awaits p (frame :: frames))
    (hopenings : openings (frame :: frames) = c.depth) : (resume m frame value c frames).Sane text := by
  have hwaiting := hawaits.tail
  have hpopped : frame.opens = false → openings frames = c.depth :=
    fun hopens => (openings_of_not_opens hopens).symm.trans hopenings
  cases hawaits with
  | whole =>
    exact after_sane (by rwa [cursorOf_atEnd]) hwaiting (by rw [cursorOf_atEnd, hpopped rfl])
  | expression h => exact ⟨hbalanced, hwaiting, hpopped rfl⟩
  | first h => exact ⟨hbalanced, h, hpopped rfl⟩
  | operand h =>
    simp only [resume]
    split
    · exact ⟨hbalanced, h, hpopped rfl⟩
    · exact ⟨hbalanced, hwaiting, (hpopped rfl).le⟩
  | base h =>
    simp only [resume]
    split
    · next hrest =>
      exact ⟨hbalanced.skip_one hrest (by decide), trivial, .exponent h, (openings_of_not_opens rfl).trans (hpopped rfl)⟩
    · exact ⟨hbalanced, hwaiting, hpopped rfl⟩
  | exponent h => exact ⟨hbalanced, hwaiting, hpopped rfl⟩
  | sign h => exact ⟨hbalanced, hwaiting, hpopped rfl⟩
  | group h =>
    rw [resume_group]
    exact closing_sane hbalanced hwaiting ((openings_of_opens rfl).symm.trans hopenings) fun _ => rfl
  | call h => exact ⟨hbalanced, hwaiting, hpopped rfl⟩
  | number h => exact ⟨hbalanced, hwaiting, hpopped rfl⟩
  | argument h =>
    exact closing_sane hbalanced hwaiting ((openings_of_opens rfl).symm.trans hopenings) fun _ => cursorOf_settle _ _

theorem step_sane (s s' : State α) (hsane : s.Sane text) (hstep : step m s = some s') : s'.Sane text := by
  obtain ⟨control, c, frames⟩ := s
  obtain ⟨hbalanced, hstacked⟩ := hsane
  cases control with
  | enter p =>
    obtain ⟨hfits, hawaits, hopenings⟩ := hstacked
    exact Option.some.inj hstep ▸ enter_sane hbalanced hfits hawaits hopenings
  | loop rank left =>
    obtain ⟨hawaits, hopenings⟩ := hstacked
    exact Option.some.inj hstep ▸ loop_sane hbalanced hawaits hopenings
  | scan start token =>
    obtain ⟨hawaits, hopenings⟩ := hstacked
    exact Option.some.inj hstep ▸ scan_sane hbalanced hawaits hopenings
  | give value =>
    obtain ⟨hwaiting, hopenings⟩ := hstacked
    rcases hwaiting with rfl | ⟨p, hawaits⟩
    · cases hstep
    · cases frames with
      | nil => cases hstep
      | cons frame frames => exact Option.some.inj hstep ▸ resume_sane hbalanced hawaits hopenings
  | raise failure =>
    obtain ⟨hwaiting, hopenings⟩ := hstacked
    cases frames with
    | nil => cases hstep
    | cons frame frames =>
      have hfewer : openings frames ≤ openings (frame :: frames) := (List.sublist_cons_self frame frames).countP_le
      exact Option.some.inj hstep ▸ ⟨hbalanced, hwaiting.tail, hfewer.trans hopenings⟩

theorem Runs.sane {n : Nat} {s : State α} (h : Runs m n (.start text) s) : s.Sane text :=
  h.invariant step_sane (start_sane text)

end Machine

end Reckoner.Expression
