import Reckoner.Proofs.Expression.Machine

/-!
# The machine reads like the parser

Where a reader has levels enough, the machine runs through its procedure to the same value or failure, and with its stack as
it was. So the machine halts with the outcome of the parser, which does not depend on the levels.
-/

namespace Reckoner.Expression

set_option autoImplicit false

/-- What a reader gives comes with a cursor at the same depth, and with less of the text in front of it. -/
theorem Sound.behind {α : Type} {m : Meaning α} {levels : Nat} {l : Level} {read : Reader α} (h : Sound m levels l read)
    (c : Cursor) (hdepth : c.depth ≤ nestingLimit) (hlevels : nestingLimit < levels + c.depth) {r : α × Cursor}
    (hread : read c = .ok r) : r.2.depth = c.depth ∧ r.2.rest.length < c.rest.length := by
  have hexplained := h c hdepth hlevels
  rw [hread] at hexplained
  obtain ⟨p, hspans, -⟩ := hexplained
  have hpos := List.length_pos_iff.mpr p.text_ne_nil
  refine ⟨hspans.depth_eq, ?_⟩
  rw [hspans.rest_eq, List.length_append]
  omega

namespace Machine

variable {α : Type} {m : Meaning α} {s : State α} {frame : Frame α} {frames : List (Frame α)} {levels : Nat}
  {inner : Reader α}

/-! ## Handing on values -/

theorem Reaches.map {x : Except Halt (α × Cursor)} {g : α → α} (h : Reaches m s (.after x (frame :: frames)))
    (hresume : ∀ value c, resume m frame value c frames = ⟨.give (g value), c, frames⟩) :
    Reaches m s (.after (x.map fun r => (g r.1, r.2)) frames) := by
  rw [map_eq_bind]
  exact h.bind fun r _ => hresume r.1 r.2 ▸ .refl _

theorem Reaches.pass {x : Except Halt (α × Cursor)} (h : Reaches m s (.after x (frame :: frames)))
    (hresume : ∀ value c, resume m frame value c frames = ⟨.give value, c, frames⟩) :
    Reaches m s (.after x frames) := by
  have hmap := h.map (g := id) hresume
  cases x <;> exact hmap

/-! ## Numbers and constants -/

theorem readOperand_eq (c : Cursor) : readOperand m c =
    match constant? c.rest with
    | some k => .ok (m.constant k, c.skip k.word.length)
    | none => readNumber m c := by
  unfold readOperand
  split
  · next hrest =>
    rw [hrest]
    rfl
  · next next rest hrest =>
    rw [hrest]
    cases hd : Literal.isDigit next <;> simp [constant?, hd, Constant.word]
  · next hrest =>
    rw [hrest]
    rfl
  · next hpi he hlast =>
    have hnone : constant? c.rest = none := by
      unfold constant?
      split
      · next rest hrest => exact absurd hrest (hpi rest)
      · next next rest hrest => exact absurd hrest (he next rest)
      · next hrest => exact absurd hrest hlast
      · rfl
    rw [hnone]

theorem scan_reaches (start : Nat) (rest : List Char) (c : Cursor) (hrest : c.rest = rest) (token : List Char) :
    Reaches m ⟨.scan start token, c, frames⟩
      (.after (numberRead m start (token ++ rest.takeWhile isNumeral) (c.skip (rest.takeWhile isNumeral).length)) frames) := by
  induction rest generalizing c token with
  | nil =>
    refine .step (.after (numberRead m start token c) frames) ?_ ?_
    · simp only [step, scan, hrest]
    · rw [List.takeWhile_nil, List.append_nil]
      exact .refl _
  | cons d rest ih =>
    cases hd : isNumeral d with
    | false =>
      refine .step (.after (numberRead m start token c) frames) ?_ ?_
      · simp only [step, scan, hrest, hd, Bool.false_eq_true, if_false]
      · rw [List.takeWhile_cons_of_neg (by simp [hd]), List.append_nil]
        exact .refl _
    | true =>
      refine .step ⟨.scan start (token ++ [d]), c.skip 1, frames⟩ ?_ ?_
      · simp only [step, scan, hrest, hd, if_true]
      · have hmore := ih (c.skip 1) (Cursor.rest_skip_one hrest) (token ++ [d])
        rw [Cursor.skip_skip, Nat.add_comm] at hmore
        rw [List.takeWhile_cons_of_pos hd]
        simpa only [List.append_assoc, List.singleton_append, List.length_cons] using hmore

theorem readNumber_eq (c : Cursor) : readNumber m c =
    numberRead m c.position (c.rest.takeWhile isNumeral) (c.skip (c.rest.takeWhile isNumeral).length) := by
  unfold readNumber numberRead
  simp only
  split
  · next hempty =>
    rw [List.isEmpty_iff.mp hempty]
    rfl
  · rfl

/-! ## The machine and the readers -/

/-- Where there are levels enough, the machine runs through the procedure and ends it like the reader. -/
def Simulates (m : Meaning α) (levels : Nat) (p : Procedure) (read : Reader α) : Prop :=
  ∀ (c : Cursor) (frames : List (Frame α)), c.depth ≤ nestingLimit → nestingLimit < levels + c.depth →
    Reaches m ⟨.enter p, c, frames⟩ (.after (read c) frames)

theorem readNumber_simulated (levels : Nat) : Simulates m levels .number (readNumber m) := by
  intro c frames _ _
  have hscan : Reaches m ⟨.scan c.position [], c, frames⟩ _ := scan_reaches c.position c.rest c rfl []
  rw [List.nil_append, ← readNumber_eq] at hscan
  exact .step _ rfl hscan

/-- An expression in parentheses is read for the activation that has opened them. -/
theorem opening_reaches (hinner : Simulates m levels .expression inner) (frame : Frame α) (frames : List (Frame α))
    {f : α × Cursor → Except Halt (α × Cursor)}
    (hresume : ∀ r : α × Cursor, resume m frame r.1 r.2 frames = .after (f r) frames) (c : Cursor)
    (hlevels : nestingLimit < levels + 1 + c.depth) :
    Reaches m (opening frame c frames) (.after ((openParen c).bind fun c₁ => (inner c₁).bind f) frames) := by
  unfold opening
  by_cases hfull : nestingLimit ≤ c.depth
  · rw [openParen_of_le hfull]
    exact .refl _
  · rw [openParen_of_lt (by omega)]
    have hread := hinner c.opened (frame :: frames) (show c.depth + 1 ≤ nestingLimit by omega)
      (show nestingLimit < levels + (c.depth + 1) by omega)
    exact hread.bind fun r _ => hresume r ▸ .refl _

theorem readCall_simulated (hinner : Simulates m levels .expression inner) (f : Function) :
    Simulates m (levels + 1) (.call f) (readCall m inner f) := by
  intro c frames _ hlevels
  by_cases hhead : (c.skip f.name.toList.length).rest.head? = some '('
  · obtain ⟨rest, hrest⟩ := List.head?_eq_some_iff.mp hhead
    have hopening := opening_reaches hinner (.argument f) frames (fun _ => rfl)
      (c.skip f.name.toList.length) hlevels
    have hassoc : ∀ (x : Except Halt (α × Cursor)) (g h : α × Cursor → Except Halt (α × Cursor)),
        (x.bind g).bind h = x.bind fun r => (g r).bind h := by
      intro x g h
      cases x <;> rfl
    refine .step (opening (.argument f) (c.skip f.name.toList.length) frames) ?_ ?_
    · simp only [step, enter, hrest]
    · rw [readCall_of_cons m inner f hrest, readParens]
      cases hopen : openParen (c.skip f.name.toList.length) with
      | error h =>
        rw [hopen] at hopening
        exact hopening
      | ok c₁ =>
        rw [hopen] at hopening
        change Reaches m _ (.after (((inner c₁).bind (closing (.unclosedCall f))).bind fun r => settle r.2 (m.call f r.1)) frames)
        rw [hassoc]
        exact hopening
  · refine .step (.after (refuse (.unopenedCall f) (c.skip f.name.toList.length)) frames) ?_ ?_
    · simp only [step, enter]
      split
      · next hrest =>
        rw [hrest] at hhead
        exact absurd rfl hhead
      · rfl
    · rw [readCall_of_head m inner f hhead]
      exact .refl _

theorem readAtom_simulated (hinner : Simulates m levels .expression inner) :
    Simulates m (levels + 1) .atom (readAtom m inner) := by
  intro c frames hdepth hlevels
  by_cases hhead : c.rest.head? = some '('
  · obtain ⟨rest, hrest⟩ := List.head?_eq_some_iff.mp hhead
    have hopening := opening_reaches hinner .group frames (fun _ => rfl) c hlevels
    refine .step (opening .group c frames) ?_ ?_
    · simp only [step, enter, hrest]
    · rw [readAtom_group m inner hrest, readGroup_eq]
      exact hopening
  · refine .step (word m c frames) (congrArg some (enter_atom_of_head m frames hhead)) ?_
    rw [readAtom_of_head m inner hhead, word]
    cases Function.match? c.rest with
    | some f => exact (readCall_simulated hinner f c (.word :: frames) hdepth hlevels).pass fun _ _ => rfl
    | none =>
      simp only [readOperand_eq]
      cases constant? c.rest with
      | some k => exact .refl _
      | none => exact (readNumber_simulated (levels + 1) c (.word :: frames) hdepth hlevels).pass fun _ _ => rfl

/-! ## Signs and powers -/

theorem readSigned_simulated (hinner : Simulates m levels .expression inner) :
    Simulates m (levels + 1) .signed (readSigned m inner) := by
  intro c frames hdepth hlevels
  have hatom := readAtom_simulated hinner
  by_cases hminus : c.rest.head? = some '-'
  · obtain ⟨rest, hrest⟩ := List.head?_eq_some_iff.mp hminus
    refine .step ⟨.enter .atom, c.skip 1, .sign true :: frames⟩ ?_ ?_
    · simp only [step, enter, hrest]
    · rw [readSigned_minus m inner hrest]
      exact (hatom (c.skip 1) (.sign true :: frames) hdepth hlevels).map fun _ _ => rfl
  · by_cases hplus : c.rest.head? = some '+'
    · obtain ⟨rest, hrest⟩ := List.head?_eq_some_iff.mp hplus
      refine .step ⟨.enter .atom, c.skip 1, .sign false :: frames⟩ ?_ ?_
      · simp only [step, enter, hrest]
      · rw [readSigned_plus m inner hrest]
        exact (hatom (c.skip 1) (.sign false :: frames) hdepth hlevels).pass fun _ _ => rfl
    · rw [readSigned_of_head m inner hminus hplus]
      refine .step _ (congrArg some (enter_signed_of_head m frames hminus hplus)) ?_
      exact (hatom c (.sign false :: frames) hdepth hlevels).pass fun _ _ => rfl

theorem resume_base (value : α) (c : Cursor) (frames : List (Frame α)) : resume m .base value c frames =
    if c.rest.head? = some '^' then ⟨.enter .signed, c.skip 1, .exponent value :: frames⟩ else ⟨.give value, c, frames⟩ := by
  simp only [resume]
  split
  · next hrest => simp [hrest]
  · next hne =>
    rw [if_neg]
    intro hhead
    obtain ⟨rest, hrest⟩ := List.head?_eq_some_iff.mp hhead
    exact hne rest hrest

theorem readPower_simulated (hsound : Sound m levels (.chain .sum) inner) (hinner : Simulates m levels .expression inner) :
    Simulates m (levels + 1) .power (readPower m inner) := by
  intro c frames hdepth hlevels
  have hsigned := readSigned_simulated hinner
  rw [readPower_eq]
  refine .step ⟨.enter .signed, c, .base :: frames⟩ rfl ?_
  refine (hsigned c (.base :: frames) hdepth hlevels).bind fun r hread => ?_
  have hdepth' : r.2.depth = c.depth := ((readSigned_sound hsound).behind c hdepth hlevels hread).1
  rw [resume_base, powerTail]
  split
  · refine (hsigned (r.2.skip 1) (.exponent r.1 :: frames) ?_ ?_).map fun _ _ => rfl
    · exact hdepth'.trans_le hdepth
    · exact hlevels.trans_eq (by rw [← hdepth']; rfl)
  · exact .refl _

/-! ## Chains -/

/-- The loop of the machine has no budget: what is left of the text covers the budget of the reader. -/
theorem loop_simulated {rank : Rank} {operand : Reader α} (hsound : Sound m levels rank.operand operand)
    (hoperand : Simulates m levels (operandOf rank) operand) (budget : List Char) (left : α) (c : Cursor)
    (hbudget : c.rest.length ≤ budget.length) (hdepth : c.depth ≤ nestingLimit) (hlevels : nestingLimit < levels + c.depth) :
    Reaches m ⟨.loop rank left, c, frames⟩ (.after (readChain m rank.operator? operand budget left c) frames) := by
  induction budget generalizing left c with
  | nil =>
    have hrest : c.rest = [] := List.eq_nil_of_length_eq_zero (Nat.le_zero.mp hbudget)
    have hnone : rank.operator? c.rest = none := by
      rw [hrest]
      cases rank <;> rfl
    refine .step ⟨.give left, c, frames⟩ ?_ (.refl _)
    simp only [step, loop, hnone]
  | cons d budget ih =>
    cases hoperator : rank.operator? c.rest with
    | none =>
      rw [readChain_of_none m hoperator]
      refine .step ⟨.give left, c, frames⟩ ?_ (.refl _)
      simp only [step, loop, hoperator]
    | some op =>
      obtain ⟨-, rest, hrest⟩ := Rank.operator?_eq_some hoperator
      have hstep : (c.skip 1).rest.length < c.rest.length := by
        rw [Cursor.rest_skip_one hrest, hrest]
        exact Nat.lt_succ_self _
      rw [readChain_of_some m hoperator]
      refine .step ⟨.enter (operandOf rank), c.skip 1, .operand rank left op c.position :: frames⟩ ?_ ?_
      · simp only [step, loop, hoperator]
      · refine (hoperand (c.skip 1) _ hdepth hlevels).bind fun r hread => ?_
        obtain ⟨hdepth', hshorter⟩ := hsound.behind (c.skip 1) hdepth hlevels hread
        have hdepth'' : r.2.depth = c.depth := hdepth'
        simp only [resume]
        cases m.binary op c.position left r.1 with
        | error failure => exact .refl _
        | ok value =>
          rw [List.length_cons] at hbudget
          exact ih value r.2 (by omega) (by omega) (by omega)

theorem chainOver_simulated (rank : Rank) {operand : Reader α} (hsound : Sound m levels rank.operand operand)
    (hoperand : Simulates m levels (operandOf rank) operand) :
    Simulates m levels (.chain rank) (chainOver m rank operand) := by
  intro c frames hdepth hlevels
  refine .step ⟨.enter (operandOf rank), c, .first rank :: frames⟩ rfl ?_
  refine (hoperand c _ hdepth hlevels).bind fun r hread => ?_
  have hdepth' := (hsound.behind c hdepth hlevels hread).1
  exact loop_simulated hsound hoperand r.2.rest r.1 r.2 (Nat.le_refl _) (by omega) (by omega)

/-! ## Whole texts -/

theorem readSum_simulated (m : Meaning α) (levels : Nat) : Simulates m levels .expression (readSum m levels) := by
  induction levels with
  | zero =>
    intro c frames hdepth hlevels
    omega
  | succ levels ih =>
    have hsound := readSum_sound m levels
    have hproduct : Sound m (levels + 1) (.chain .product) (readProduct m (readSum m levels)) :=
      chainOver_sound (readPower_sound hsound)
    have hsum : Simulates m (levels + 1) (.chain .sum) (readSum m (levels + 1)) :=
      chainOver_simulated .sum hproduct
        (chainOver_simulated .product (readPower_sound hsound) (readPower_simulated hsound ih))
    intro c frames hdepth hlevels
    exact .step _ rfl ((hsum c (.expression :: frames) hdepth hlevels).pass fun _ _ => rfl)

theorem step_after (outcome : Except Halt (α × Cursor)) : step m (.after outcome []) = none := by
  cases outcome <;> rfl

/-- The machine halts with the outcome of the parser with any number of levels beyond the nesting limit. -/
theorem start_reaches (m : Meaning α) (text : List Char) (hlevels : nestingLimit < levels) :
    Reaches m (.start text) (.after (parseWith m levels text) []) := by
  have hparse : parseWith m levels text = (readSum m levels (.start text)).bind atEnd := by
    unfold parseWith
    cases readSum m levels (.start text) <;> rfl
  rw [hparse]
  exact (readSum_simulated m levels (.start text) [.whole] (Nat.zero_le _) hlevels).bind fun r _ => .refl _

/-- With levels enough the parser never runs out of them. -/
theorem parseWith_cause (text : List Char) (hlevels : nestingLimit < levels) {h : Halt}
    (hparse : parseWith m levels text = .error h) : ∃ failure, h.cause = .failed failure := by
  have hexplained := readSum_sound m levels (.start text) (Nat.zero_le _) hlevels
  unfold parseWith at hparse
  cases hread : readSum m levels (.start text) with
  | error halt =>
    rw [hread] at hparse hexplained
    obtain rfl : halt = h := Except.error.inj hparse
    cases hexplained with
    | grammatical fault front back cursor rest_eq viable => exact ⟨_, rfl⟩
    | computational inner front operation back failure cursor rest_eq leads broken position_eq => exact ⟨_, rfl⟩
  | ok r =>
    rw [hread] at hparse
    simp only [bind, Except.bind] at hparse
    split at hparse
    · cases hparse
    · rw [← Except.error.inj hparse]
      exact ⟨_, rfl⟩

theorem after_injective {outcome outcome' : Except Halt (α × Cursor)}
    (hcause : ∀ h, outcome = .error h → ∃ failure, h.cause = .failed failure)
    (hcause' : ∀ h, outcome' = .error h → ∃ failure, h.cause = .failed failure)
    (heq : State.after outcome frames = State.after outcome' frames) : outcome = outcome' := by
  cases outcome with
  | ok r =>
    cases outcome' with
    | ok r' =>
      simp only [State.after, State.mk.injEq, Control.give.injEq] at heq
      rw [Prod.ext heq.1 heq.2.1]
    | error h' => simp [State.after] at heq
  | error h =>
    cases outcome' with
    | ok r' => simp [State.after] at heq
    | error h' =>
      obtain ⟨failure, hfailed⟩ := hcause h rfl
      obtain ⟨failure', hfailed'⟩ := hcause' h' rfl
      obtain ⟨cause, cursor⟩ := h
      obtain ⟨cause', cursor'⟩ := h'
      obtain rfl : cause = .failed failure := hfailed
      obtain rfl : cause' = .failed failure' := hfailed'
      simp only [State.after, State.mk.injEq, Control.raise.injEq, Halt.failure] at heq
      rw [heq.1, heq.2.1]

/-- The outcome of the parser is the same for any number of levels beyond the nesting limit. -/
theorem parseWith_eq (m : Meaning α) (text : List Char) (hlevels : nestingLimit < levels) :
    parseWith m levels text = parse m text := by
  obtain ⟨k, hrun⟩ := start_reaches m text hlevels
  obtain ⟨n, hrun'⟩ := start_reaches m text (Nat.lt_succ_self nestingLimit)
  have hend := hrun.final_unique hrun' (step_after _) (step_after _)
  exact after_injective (fun _ => parseWith_cause text hlevels) (fun _ => parseWith_cause text (Nat.lt_succ_self _)) hend

end Machine

end Reckoner.Expression
