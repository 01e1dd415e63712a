import Reckoner.Proofs.Expression.Enclosed
import Reckoner.Proofs.Expression.Place

/-!
# Sentences beyond the nesting limit

Along a phrase whose operations all have a value the machine comes to the end of the phrase, or it refuses a parenthesis.
So in a sentence with a value nothing else can go wrong, and the parenthesis is refused exactly if some parenthesis has as
many open in front of it as the limit allows.
-/

namespace Reckoner.Expression

set_option autoImplicit false

variable {α : Type} {m : Meaning α}

/-! ## Trees with a value -/

theorem Tree.fold_negate_eq_ok {t : Tree} {x : α} :
    (Tree.negate t).fold m = .ok x ↔ ∃ y, t.fold m = .ok y ∧ m.negate y = x := by
  rw [Tree.fold]
  cases t.fold m <;> simp [bind, Except.bind, pure, Except.pure]

theorem Tree.fold_binary_eq_ok {op : Operator} {position : Nat} {left right : Tree} {x : α} :
    (Tree.binary op position left right).fold m = .ok x ↔
      ∃ y, left.fold m = .ok y ∧ ∃ z, right.fold m = .ok z ∧ m.binary op position y z = .ok x := by
  rw [Tree.fold]
  cases left.fold m <;> cases right.fold m <;> simp [bind, Except.bind]

theorem Tree.fold_power_eq_ok {base exponent : Tree} {x : α} :
    (Tree.power base exponent).fold m = .ok x ↔
      ∃ y, base.fold m = .ok y ∧ ∃ z, exponent.fold m = .ok z ∧ m.power y z = x := by
  rw [Tree.fold]
  cases base.fold m <;> cases exponent.fold m <;> simp [bind, Except.bind, pure, Except.pure]

theorem Tree.fold_call_eq_ok {f : Function} {argument : Tree} {x : α} :
    (Tree.call f argument).fold m = .ok x ↔ ∃ y, argument.fold m = .ok y ∧ m.call f y = .ok x := by
  rw [Tree.fold]
  cases argument.fold m <;> simp [bind, Except.bind]

namespace Machine

variable {s s' t : State α} {c : Cursor} {frames : List (Frame α)} {rest : List Char} {x : α}

/-! ## Arrivals -/

/-- The machine comes from the first state to the second one, or it halts on the way because it refuses a parenthesis. -/
def Arrives (m : Meaning α) (s t : State α) : Prop :=
  Reaches m s t ∨ ∃ c, Reaches m s (.after (refuse .tooDeep c) [])

theorem Arrives.refl (s : State α) : Arrives m s s :=
  Or.inl (.refl s)

theorem Arrives.trans (h : Arrives m s s') (h' : Arrives m s' t) : Arrives m s t := by
  rcases h with h | hrefused
  · rcases h' with h' | ⟨c, hrefused⟩
    · exact Or.inl (h.trans h')
    · exact Or.inr ⟨c, h.trans hrefused⟩
  · exact Or.inr hrefused

theorem Arrives.step (s' : State α) (hstep : step m s = some s') (h : Arrives m s' t) : Arrives m s t :=
  Arrives.trans (Or.inl (.step s' hstep (.refl s'))) h

/-- A failure goes through the whole stack. -/
theorem raise_reaches (failure : Failure) (c : Cursor) (frames : List (Frame α)) :
    Reaches m ⟨.raise failure, c, frames⟩ ⟨.raise failure, c, []⟩ := by
  induction frames with
  | nil => exact .refl _
  | cons frame frames ih => exact .step _ rfl ih

theorem opening_arrives (frame : Frame α) (c : Cursor) (frames : List (Frame α)) :
    Arrives m (opening frame c frames) ⟨.enter .expression, c.opened, frame :: frames⟩ := by
  rcases opening_cases frame c frames with ⟨-, hopening⟩ | ⟨-, hopening⟩
  · exact Or.inr ⟨c, hopening ▸ raise_reaches _ c frames⟩
  · exact hopening ▸ .refl _

/-! ## Words -/

theorem constant?_word (k : Constant) (hstop : NoNumeral rest) : constant? (k.word ++ rest) = some k := by
  cases k with
  | pi => rfl
  | e =>
    cases rest with
    | nil => rfl
    | cons d rest =>
      have hd : Literal.isDigit d = false := (Bool.or_eq_false_iff.mp (hstop d rfl)).1
      simp [Constant.word, constant?, hd]

theorem constant?_numeral {d : Char} (hd : isNumeral d = true) : constant? (d :: rest) = none := by
  unfold constant?
  split
  · next h =>
    rw [(List.cons.inj h).1] at hd
    contradiction
  · next h =>
    rw [(List.cons.inj h).1] at hd
    contradiction
  · next h =>
    rw [(List.cons.inj h).1] at hd
    contradiction
  · rfl

theorem constant_arrives (k : Constant) (hrest : c.rest = k.word ++ rest) (hstop : NoNumeral rest) :
    Arrives m ⟨.enter .atom, c, frames⟩ ⟨.give (m.constant k), c.skip k.word.length, frames⟩ := by
  have hhead : c.rest.head? ≠ some '(' := by
    rw [hrest]
    cases k <;> simp [Constant.word]
  have hmatch : Function.match? c.rest = none := by
    rw [hrest]
    cases k <;> exact match?_cons_eq_none (by decide) _
  have hconstant : constant? c.rest = some k := hrest ▸ constant?_word k hstop
  refine .step _ (congrArg some (enter_atom_of_head m frames hhead)) ?_
  simp only [word, hmatch, hconstant]
  exact .refl _

theorem number_arrives (n : Numeral) (hrest : c.rest = n.text ++ rest) (hstop : NoNumeral rest) :
    Arrives m ⟨.enter .atom, c, frames⟩ ⟨.give (m.number n.value), c.skip n.text.length, frames⟩ := by
  obtain ⟨d, more, htext, hd⟩ := n.text_cons
  have hrest' : c.rest = d :: (more ++ rest) := by simpa [htext] using hrest
  have hhead : c.rest.head? ≠ some '(' := by
    rw [hrest']
    rintro hsome
    obtain rfl := Option.some.inj hsome
    contradiction
  have hmatch : Function.match? c.rest = none := by
    rw [hrest']
    exact match?_cons_eq_none (not_initial_of_isNumeral hd) _
  have hconstant : constant? c.rest = none := by
    rw [hrest']
    exact constant?_numeral hd
  have hvalue : Literal.mantissa? n.text = some n.value :=
    (mantissa?_eq_some_iff n.all_numeral n.value).mpr ⟨n, rfl, rfl⟩
  have hread : numberRead m c.position n.text (c.skip n.text.length) = .ok (m.number n.value, c.skip n.text.length) := by
    have hempty : n.text.isEmpty = false := by rw [htext]; rfl
    simp [numberRead, hempty, hvalue]
  have hscan : Reaches m ⟨.scan c.position [], c, .word :: frames⟩ _ := scan_reaches c.position c.rest c rfl []
  rw [List.nil_append, hrest, takeWhile_numeral n hstop, hread] at hscan
  refine .step _ (congrArg some (enter_atom_of_head m frames hhead)) ?_
  simp only [word, hmatch, hconstant]
  refine .step _ rfl (.trans (Or.inl hscan) ?_)
  exact .step _ rfl (.refl _)

/-! ## Phrases -/

def procedureOf : Level → Procedure
  | .chain rank => .chain rank
  | .power => .power
  | .signed => .signed
  | .atom => .atom

/-- Behind a phrase of a chain the machine is at the head of the loop, which may go on. -/
def arrival : Level → α → Control α
  | .chain rank, x => .loop rank x
  | _, x => .give x

/-- A phrase of the level can end here, though a chain may go on with an operator. -/
def Ends : Level → List Char → Prop
  | .chain rank, rest => rank.operand.Stops rest
  | l, rest => l.Stops rest

/-- The machine comes to the end of the phrase wherever it can end, or it refuses a parenthesis. -/
def Passes (m : Meaning α) {l : Level} (p : Phrase Empty l) : Prop :=
  ∀ {c : Cursor} {rest : List Char} (frames : List (Frame α)) {x : α}, (p.treeAt c.position).fold m = .ok x →
    c.rest = p.text ++ rest → Ends l rest →
      Arrives m ⟨.enter (procedureOf l), c, frames⟩ ⟨arrival l x, c.skip p.text.length, frames⟩

theorem chain_arrives {rank : Rank} {p : Phrase Empty (.chain rank)} (hp : Passes m p) (frames : List (Frame α))
    (hvalue : (p.treeAt c.position).fold m = .ok x) (hrest : c.rest = p.text ++ rest)
    (hstop : (Level.chain rank).Stops rest) :
    Arrives m ⟨.enter (.chain rank), c, frames⟩ ⟨.give x, c.skip p.text.length, frames⟩ := by
  obtain ⟨hnone, hends⟩ := Level.stops_chain hstop
  refine (hp frames hvalue hrest hends).trans ?_
  refine .step ⟨.give x, c.skip p.text.length, frames⟩ ?_ (.refl _)
  simp only [arrival, step, loop, Cursor.rest_skip hrest, hnone]

theorem operand_arrives {rank : Rank} {p : Phrase Empty rank.operand} (hp : Passes m p) (frames : List (Frame α))
    (hvalue : (p.treeAt c.position).fold m = .ok x) (hrest : c.rest = p.text ++ rest) (hstop : rank.operand.Stops rest) :
    Arrives m ⟨.enter (operandOf rank), c, frames⟩ ⟨.give x, c.skip p.text.length, frames⟩ := by
  cases rank with
  | sum => exact chain_arrives hp frames hvalue hrest hstop
  | product => exact hp frames hvalue hrest hstop

theorem expression_arrives {p : Sentence} (hp : Passes m p) (frames : List (Frame α))
    (hvalue : (p.treeAt c.position).fold m = .ok x) (hrest : c.rest = p.text ++ rest) (hstop : (Level.chain .sum).Stops rest) :
    Arrives m ⟨.enter .expression, c, frames⟩ ⟨.give x, c.skip p.text.length, frames⟩ :=
  .step _ rfl ((chain_arrives hp (.expression :: frames) hvalue hrest hstop).trans (.step _ rfl (.refl _)))

theorem parens_arrives {p : Sentence} (hp : Passes m p) (frame : Frame α) (frames : List (Frame α))
    (hvalue : (p.treeAt (c.position + 1)).fold m = .ok x) (hrest : c.rest = '(' :: p.text ++ ')' :: rest) :
    Arrives m (opening frame c frames) ⟨.give x, c.opened.skip p.text.length, frame :: frames⟩ ∧
      ∀ fault, closing fault (x, c.opened.skip p.text.length) = .ok (x, c.skip (p.text.length + 2)) := by
  have hopened : c.opened.rest = p.text ++ ')' :: rest := Cursor.rest_opened hrest
  refine ⟨(opening_arrives frame c frames).trans (expression_arrives hp _ hvalue hopened (stops_close _ _)), fun fault => ?_⟩
  unfold closing
  rw [closeParen_of_cons fault (Cursor.rest_skip hopened), Cursor.closed_skip_opened]
  rfl

theorem group_passes {p : Sentence} (hp : Passes m p) : Passes m (Phrase.group p) := by
  intro c rest frames x hvalue hrest _
  have hrest' : c.rest = '(' :: p.text ++ ')' :: rest := by simpa [Phrase.text] using hrest
  obtain ⟨hinside, hclosing⟩ := parens_arrives hp .group frames hvalue hrest'
  have hlength : (Phrase.group p).text.length = p.text.length + 2 := by simp [Phrase.text]
  refine .step (opening .group c frames) ?_ (hinside.trans (.step _ rfl ?_))
  · simp only [procedureOf, step, enter, hrest', List.cons_append]
  · rw [resume, hclosing, hlength]
    exact .refl _

theorem call_passes (f : Function) (name : Spelling f) {p : Sentence} (hp : Passes m p) :
    Passes m (Phrase.call f name p) := by
  intro c rest frames x hvalue hrest _
  have hrest' : c.rest = name.text ++ ('(' :: p.text ++ ')' :: rest) := by simpa [Phrase.text] using hrest
  have hskip : (c.skip f.name.toList.length).rest = '(' :: p.text ++ ')' :: rest :=
    name.length_text ▸ Cursor.rest_skip hrest'
  have hmatch : Function.match? c.rest = some f := hrest' ▸ match?_spelling name _
  have hhead : c.rest.head? ≠ some '(' := by
    rw [hrest']
    exact name.head_append_ne _
  have hlength : (Phrase.call f name p).text.length = f.name.toList.length + (p.text.length + 2) := by
    simp [Phrase.text, name.length_text]
  obtain ⟨y, hy, hcall⟩ := Tree.fold_call_eq_ok.mp hvalue
  rw [name.length_text] at hy
  obtain ⟨hinside, hclosing⟩ := parens_arrives hp (.argument f) (.word :: frames) hy hskip
  refine .step _ (congrArg some (enter_atom_of_head m frames hhead)) ?_
  simp only [word, hmatch]
  refine .step (opening (.argument f) (c.skip f.name.toList.length) (.word :: frames)) ?_ (hinside.trans (.step _ rfl ?_))
  · simp only [step, enter, hskip, List.cons_append]
  · rw [resume, hclosing, hlength, Cursor.skip_skip]
    change Arrives m (.after (settle _ (m.call f y)) (.word :: frames)) _
    rw [hcall]
    exact .step _ rfl (.refl _)

theorem bare_passes {p : Phrase Empty .atom} (hp : Passes m p) : Passes m (Phrase.bare p) := by
  intro c rest frames x hvalue hrest hends
  obtain ⟨hminus, hplus⟩ := p.atom_head_append_ne rest
  have hrest' : c.rest = p.text ++ rest := hrest
  rw [← hrest'] at hminus hplus
  refine .step _ (congrArg some (enter_signed_of_head m frames hminus hplus)) ?_
  exact (hp _ hvalue hrest hends).trans (.step _ rfl (.refl _))

theorem signed_arrives {p : Phrase Empty .atom} (hp : Passes m p) (negative : Bool) (frames : List (Frame α)) {d : Char}
    (hvalue : (p.treeAt (c.position + 1)).fold m = .ok x) (hrest : c.rest = d :: p.text ++ rest) (hends : NoNumeral rest) :
    Arrives m ⟨.enter .atom, c.skip 1, .sign negative :: frames⟩
      ⟨.give (if negative then m.negate x else x), c.skip (d :: p.text).length, frames⟩ := by
  refine (hp _ hvalue (Cursor.rest_skip_one hrest) hends).trans ?_
  rw [Cursor.skip_skip, Nat.add_comm]
  exact .step _ rfl (.refl _)

theorem plus_passes {p : Phrase Empty .atom} (hp : Passes m p) : Passes m (Phrase.plus p) := by
  intro c rest frames x hvalue hrest hends
  refine .step ⟨.enter .atom, c.skip 1, .sign false :: frames⟩ ?_ (signed_arrives hp false frames hvalue hrest hends)
  simp only [procedureOf, step, enter, hrest, Phrase.text, List.cons_append]

theorem minus_passes {p : Phrase Empty .atom} (hp : Passes m p) : Passes m (Phrase.minus p) := by
  intro c rest frames x hvalue hrest hends
  obtain ⟨y, hy, rfl⟩ := Tree.fold_negate_eq_ok.mp hvalue
  refine .step ⟨.enter .atom, c.skip 1, .sign true :: frames⟩ ?_ (signed_arrives hp true frames hy hrest hends)
  simp only [procedureOf, step, enter, hrest, Phrase.text, List.cons_append]

theorem base_passes {p : Phrase Empty .signed} (hp : Passes m p) : Passes m (Phrase.base p) := by
  intro c rest frames x hvalue hrest hends
  obtain ⟨hcaret, hnumeral⟩ := hends
  have hskip : (c.skip p.text.length).rest = rest := Cursor.rest_skip hrest
  refine .step _ rfl ((hp _ hvalue hrest hnumeral).trans (.step _ rfl ?_))
  rw [resume_base, if_neg (hskip ▸ hcaret)]
  exact .refl _

theorem raise_passes {p q : Phrase Empty .signed} (hp : Passes m p) (hq : Passes m q) : Passes m (Phrase.raise p q) := by
  intro c rest frames x hvalue hrest hends
  obtain ⟨-, hnumeral⟩ := hends
  obtain ⟨y, hy, z, hz, rfl⟩ := Tree.fold_power_eq_ok.mp hvalue
  have hrest' : c.rest = p.text ++ ('^' :: q.text ++ rest) := by simpa [Phrase.text] using hrest
  have hskip := Cursor.rest_skip hrest'
  have hend : ((c.skip p.text.length).skip 1).skip q.text.length = c.skip (Phrase.raise p q).text.length := by
    rw [Cursor.skip_skip, Cursor.skip_skip, Phrase.text, List.length_append, List.length_cons, Nat.add_comm 1]
  have hexponent := hq (.exponent y :: frames) hz (Cursor.rest_skip_one hskip) hnumeral
  rw [hend] at hexponent
  refine .step _ rfl ((hp _ hy hrest' (stops_caret _)).trans (.step _ rfl ?_))
  rw [resume_base, if_pos (by rw [hskip]; rfl)]
  exact hexponent.trans (.step _ rfl (.refl _))

theorem single_passes {rank : Rank} {p : Phrase Empty rank.operand} (hp : Passes m p) : Passes m (Phrase.single p) := by
  intro c rest frames x hvalue hrest hends
  exact .step _ rfl ((operand_arrives hp _ hvalue hrest hends).trans (.step _ rfl (.refl _)))

theorem extend_passes {rank : Rank} {left : Phrase Empty (.chain rank)} {op : Operator} (belongs : op.rank = rank)
    {right : Phrase Empty rank.operand} (hleft : Passes m left) (hright : Passes m right) :
    Passes m (left.extend op belongs right) := by
  intro c rest frames x hvalue hrest hends
  obtain ⟨y, hy, z, hz, hbinary⟩ := Tree.fold_binary_eq_ok.mp hvalue
  have hrest' : c.rest = left.text ++ (op.symbol :: right.text ++ rest) := by simpa [Phrase.text] using hrest
  have hskip := Cursor.rest_skip hrest'
  have hoperator : rank.operator? (c.skip left.text.length).rest = some op := by
    rw [hskip]
    exact Operator.operator?_symbol belongs (by simp [right.text_ne_nil])
  have hend : ((c.skip left.text.length).skip 1).skip right.text.length =
      c.skip (left.extend op belongs right).text.length := by
    rw [Cursor.skip_skip, Cursor.skip_skip, Phrase.text, List.length_append, List.length_cons, Nat.add_comm 1]
  have hoperand := operand_arrives hright (.operand rank y op (c.position + left.text.length) :: frames) hz
    (Cursor.rest_skip_one hskip) hends
  rw [hend] at hoperand
  refine (hleft frames hy hrest' (Operator.stops_symbol belongs _)).trans (.step _ ?_ (hoperand.trans (.step _ rfl ?_)))
  · simp only [arrival, step, loop, hoperator]
    rfl
  · simp only [resume, hbinary]
    exact .refl _

theorem passes : {l : Level} → (p : Phrase Empty l) → Passes m p
  | _, .single operand => single_passes (passes operand)
  | _, .extend left _ belongs right => extend_passes belongs (passes left) (passes right)
  | _, .base b => base_passes (passes b)
  | _, .raise b exponent => raise_passes (passes b) (passes exponent)
  | _, .bare operand => bare_passes (passes operand)
  | _, .plus operand => plus_passes (passes operand)
  | _, .minus operand => minus_passes (passes operand)
  | _, .group inner => group_passes (passes inner)
  | _, .call f name argument => call_passes f name (passes argument)
  | _, .constant k => fun _ _ hvalue hrest hends => Except.ok.inj hvalue ▸ constant_arrives k hrest hends
  | _, .number n => fun _ _ hvalue hrest hends => Except.ok.inj hvalue ▸ number_arrives n hrest hends
  | _, .unknown v => v.elim

/-! ## Sentences -/

theorem parse_of_reaches {text : List Char} {outcome : Except Halt (α × Cursor)}
    (hcause : ∀ h, outcome = .error h → ∃ failure, h.cause = .failed failure)
    (h : Reaches m (.start text) (.after outcome [])) : parse m text = outcome := by
  obtain ⟨k, hrun⟩ := h
  obtain ⟨n, hrun'⟩ := start_reaches m text (Nat.lt_succ_self nestingLimit)
  exact after_injective (fun _ => parseWith_cause text (Nat.lt_succ_self _)) hcause
    (hrun'.final_unique hrun (step_after _) (step_after _))

/-- A sentence with a value is accepted, or a parenthesis in it is refused. -/
theorem parse_value_or_refused {p : Sentence} (hvalue : (p.treeAt 0).fold m = .ok x) :
    parse m p.text = .ok (x, ⟨[], p.text.length, 0⟩) ∨ ∃ c, parse m p.text = refuse .tooDeep c := by
  have hend : (Cursor.start p.text).skip p.text.length = ⟨[], p.text.length, 0⟩ := by
    simp [Cursor.start, Cursor.skip]
  have hsentence := expression_arrives (c := .start p.text) (passes p) [.whole] hvalue (List.append_nil _).symm (stops_nil _)
  rw [hend] at hsentence
  have harrives : Arrives m (.start p.text) (.after (.ok (x, ⟨[], p.text.length, 0⟩)) []) :=
    hsentence.trans (.step _ rfl (.refl _))
  rcases harrives with haccepted | ⟨c, hrefused⟩
  · exact Or.inl (parse_of_reaches (fun h hh => by cases hh) haccepted)
  · exact Or.inr ⟨c, parse_of_reaches (fun h hh => ⟨.malformed .tooDeep c.position, Except.error.inj hh ▸ rfl⟩) hrefused⟩

/-! ## Outcomes of the arithmetic -/

variable {settings : Settings} {text : List Char}

/-- Where a parenthesis is refused, one is buried, and it is the first one that is. -/
theorem refused_buried {h : Halt} {position : Nat} (hparse : parse (arithmetic settings) text = .error h)
    (hfailure : h.failure = .malformed .tooDeep position) :
    Buried text position ∧ ∀ earlier, Buried text earlier → position ≤ earlier := by
  obtain ⟨n, hrun⟩ := start_reaches (arithmetic settings) text (Nat.lt_succ_self nestingLimit)
  rw [show parseWith (arithmetic settings) (nestingLimit + 1) text = .error h from hparse] at hrun
  have hbalanced : h.cursor.Balanced text := hrun.sane.balanced
  have hplaced : h.failure.Placed text h.cursor.position := hrun.placed.control
  rw [hfailure] at hplaced
  obtain ⟨rfl, hburied⟩ := hplaced
  refine ⟨hburied, fun earlier hearlier => Nat.le_of_not_lt fun hless => ?_⟩
  exact hbalanced.not_buried hless hearlier

/-- In a sentence with a value a parenthesis is refused if one is buried. -/
theorem refused_of_buried {p : Sentence} {x : Float} (hvalue : (p.treeAt 0).value settings = .ok x) {position : Nat}
    (hburied : Buried p.text position) : ∃ c, parse (arithmetic settings) p.text = refuse .tooDeep c := by
  refine (parse_value_or_refused hvalue).resolve_left fun haccepted => ?_
  obtain ⟨n, hrun⟩ := start_reaches (arithmetic settings) p.text (Nat.lt_succ_self nestingLimit)
  rw [show parseWith (arithmetic settings) (nestingLimit + 1) p.text = _ from haccepted] at hrun
  have hbalanced : Cursor.Balanced p.text ⟨[], p.text.length, 0⟩ := hrun.sane.balanced
  obtain ⟨hless, -⟩ := List.getElem?_eq_some_iff.mp hburied.1
  exact hbalanced.not_buried hless hburied

/--
Whenever the machine enters or ends a procedure, its cursor stands in the text, its depth is the balance of the parentheses
in front of it and within the limit, and it has not gone back. It ends a text that it accepts at the end and at depth zero.
A failure that it raises goes with the place where it stands. A parenthesis is refused only where the first one is buried,
and in a sentence whose tree has a value whenever one is.
-/
theorem parse_balanced (settings : Settings) (text : List Char) :
    (∀ n s, Runs (arithmetic settings) n (.start text) s → s.cursor.Balanced text ∧
      ∀ failure, s.control = .raise failure → failure.Placed text s.cursor.position) ∧
    (∀ k n s t, Runs (arithmetic settings) k (.start text) s → Runs (arithmetic settings) n s t →
      s.cursor.position ≤ t.cursor.position) ∧
    Reaches (arithmetic settings) (.start text) (.after (parse (arithmetic settings) text) []) ∧
    (∀ x c, parse (arithmetic settings) text = .ok (x, c) → c.position = text.length ∧ c.depth = 0) ∧
    (∀ h position, parse (arithmetic settings) text = .error h → h.failure = .malformed .tooDeep position →
      Buried text position ∧ ∀ earlier, Buried text earlier → position ≤ earlier) ∧
    ∀ (p : Sentence) (x : Float), p.text = text → (p.treeAt 0).value settings = .ok x →
      ((∃ h position, parse (arithmetic settings) text = .error h ∧ h.failure = .malformed .tooDeep position) ↔
        ∃ position, Buried text position) := by
  refine ⟨fun n s hrun => ⟨hrun.sane.balanced, fun failure hcontrol => ?_⟩, fun k n s t _ hrun => hrun.advances.2,
    start_reaches _ text (Nat.lt_succ_self nestingLimit), fun x c hparse => ?_,
    fun h position hparse hfailure => refused_buried hparse hfailure, fun p x htext hvalue => ⟨?_, ?_⟩⟩
  · have hplaced := hrun.placed.control
    rwa [hcontrol] at hplaced
  · have hexplained := parse_explained (arithmetic settings) text
    rw [hparse] at hexplained
    obtain ⟨rfl, -⟩ := hexplained
    exact ⟨rfl, rfl⟩
  · rintro ⟨h, position, hparse, hfailure⟩
    exact ⟨position, (refused_buried hparse hfailure).1⟩
  · rintro ⟨position, hburied⟩
    subst htext
    obtain ⟨c, hrefused⟩ := refused_of_buried hvalue hburied
    exact ⟨_, c.position, hrefused, rfl⟩

/-- Sixty-five parentheses around a constant are one too many. -/
theorem parse_balanced_sixty_five :
    ∃ h position, parse (arithmetic {}) (enclosed 65 ['p', 'i']) = .error h ∧ h.failure = .malformed .tooDeep position ∧
      position ≤ 64 := by
  have htext := grouped_text (.single (.single (.base (.bare (.constant .pi))))) 65
  have hvalue := (grouped_value {} (.single (.single (.base (.bare (.constant .pi))))) 65 0).trans rfl
  have hburied : Buried (enclosed 65 ['p', 'i']) 64 := ⟨rfl, by decide⟩
  obtain ⟨-, -, -, -, hfirst, hsentence⟩ := parse_balanced {} (enclosed 65 ['p', 'i'])
  obtain ⟨h, position, hparse, hfailure⟩ := (hsentence _ _ htext hvalue).mpr ⟨64, hburied⟩
  exact ⟨h, position, hparse, hfailure, (hfirst h position hparse hfailure).2 64 hburied⟩

end Machine

end Reckoner.Expression
