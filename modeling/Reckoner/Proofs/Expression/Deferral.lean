import Reckoner.Proofs.Expression.Soundness

/-!
# Computing while reading and computing afterwards

A reader that computes as it reads is compared with the reader that builds the tree. They halt alike, or the
first one stops earlier for a failure of the arithmetic: then the tree, if there is one, has that failure as the
first one from left to right, and a fault of the grammar lies at or behind the place where the first one stopped.
-/

namespace Reckoner.Expression

set_option autoImplicit false

variable {α : Type} {m : Meaning α} {levels : Nat}

/-! ## The tree reader moves on -/

/-- Building a tree never fails, so that every halt is a fault of the grammar. -/
theorem not_broken_trees {l : Level} {start : Nat} {text : List Char} {failure : Failure} :
    ¬ Broken trees l start text failure := by
  intro h
  cases h with
  | operator left op belongs right start x y failure hleft hright fails => cases fails
  | call f name argument start x failure hargument fails => cases fails

theorem accounted_trees {l : Level} {c : Cursor} {h : Halt} (ha : h.Accounted trees l c) :
    ∃ fault front back, c.rest = front ++ back ∧ fault.Viable l c.depth front back ∧
      h.cause = .failed (.malformed fault (c.position + front.length)) := by
  cases ha with
  | grammatical fault front back cursor rest_eq viable => exact ⟨fault, front, back, rest_eq, viable, rfl⟩
  | computational inner front operation back failure cursor rest_eq leads broken position_eq =>
    exact absurd broken not_broken_trees

theorem failure_of_accounted_trees {l : Level} {c : Cursor} {h : Halt} (ha : h.Accounted trees l c) {p : Nat}
    (hp : h.failure.position? = some p) : c.position ≤ p := by
  obtain ⟨fault, front, back, -, -, hcause⟩ := accounted_trees ha
  simp only [Halt.failure, hcause, Failure.position?, Option.some.injEq] at hp
  omega

/-! ## The two readers side by side -/

/-- The failures that a meaning can give. -/
def Meaning.Fails (m : Meaning α) (failure : Failure) : Prop :=
  (∃ op position x y, m.binary op position x y = .error failure) ∨ ∃ f x, m.call f x = .error failure

/--
The outcome of the tree reader where the other reader has stopped for a failure at the position: a tree with that
failure, or a fault at or behind the position.
-/
def Stuck (m : Meaning α) (failure : Failure) (position : Nat) : Except Halt (Tree × Cursor) → Prop
  | .ok r => r.1.fold m = .error failure ∧ position ≤ r.2.position
  | .error h => ∀ p, h.failure.position? = some p → position ≤ p

/-- How the outcome of a computing reader goes with the outcome of the tree reader. -/
def Tracks (m : Meaning α) (built : Except Halt (Tree × Cursor)) : Except Halt (α × Cursor) → Prop
  | .ok r => ∃ t, built = .ok (t, r.2) ∧ t.fold m = .ok r.1
  | .error h =>
    built = .error h ∨
      ∃ failure, h.cause = .failed failure ∧ m.Fails failure ∧ Stuck m failure h.cursor.position built

/-- The two readers go together wherever there are levels enough. -/
def Follows (m : Meaning α) (levels : Nat) (build : Reader Tree) (compute : Reader α) : Prop :=
  ∀ c : Cursor, c.depth ≤ nestingLimit → nestingLimit < levels + c.depth → Tracks m (build c) (compute c)

theorem Tracks.refuse (fault : Fault) (c : Cursor) : Tracks m (refuse fault c) (refuse fault c) :=
  Or.inl rfl

/--
Two sequences of readers go together if their first steps do and the second steps go together from a common
cursor, and if the tree reader stays stuck in its second step.
-/
theorem Tracks.bind {built : Except Halt (Tree × Cursor)} {computed : Except Halt (α × Cursor)}
    {build : Tree × Cursor → Except Halt (Tree × Cursor)} {compute : α × Cursor → Except Halt (α × Cursor)}
    (h : Tracks m built computed)
    (hgoes : ∀ t x c, built = .ok (t, c) → t.fold m = .ok x → Tracks m (build (t, c)) (compute (x, c)))
    (hstuck : ∀ t c failure position, built = .ok (t, c) → t.fold m = .error failure → position ≤ c.position →
      Stuck m failure position (build (t, c))) : Tracks m (built.bind build) (computed.bind compute) := by
  cases computed with
  | ok r =>
    obtain ⟨t, hbuilt, hvalue⟩ := h
    rw [hbuilt]
    exact hgoes t r.1 r.2 hbuilt hvalue
  | error halt =>
    rcases h with hbuilt | ⟨failure, hcause, hfails, hs⟩
    · rw [hbuilt]
      exact Or.inl rfl
    · refine Or.inr ⟨failure, hcause, hfails, ?_⟩
      cases hbuilt : built with
      | error halt' =>
        rw [hbuilt] at hs
        exact hs
      | ok r =>
        rw [hbuilt] at hs
        exact hstuck r.1 r.2 failure _ hbuilt hs.1 hs.2

/-! ## Atoms -/

theorem readNumber_tracks (c : Cursor) : Tracks m (readNumber trees c) (readNumber m c) := by
  unfold readNumber
  simp only
  split
  · exact Tracks.refuse _ c
  · split
    · exact ⟨_, rfl, rfl⟩
    · exact Or.inl rfl

theorem readOperand_tracks (c : Cursor) : Tracks m (readOperand trees c) (readOperand m c) := by
  unfold readOperand
  split
  · exact ⟨_, rfl, rfl⟩
  · split
    · exact readNumber_tracks c
    · exact ⟨_, rfl, rfl⟩
  · exact ⟨_, rfl, rfl⟩
  · exact readNumber_tracks c

variable {build : Reader Tree} {compute : Reader α}

theorem closeParen_tracks (fault : Fault) {t : Tree} {x : α} (c : Cursor) (hvalue : t.fold m = .ok x) :
    Tracks m ((closeParen fault c).map fun c' => (t, c')) ((closeParen fault c).map fun c' => (x, c')) := by
  cases closeParen fault c with
  | ok c' => exact ⟨t, rfl, hvalue⟩
  | error h => exact Or.inl rfl

theorem closeParen_stuck (fault : Fault) {t : Tree} {failure : Failure} {position : Nat} (c : Cursor)
    (hvalue : t.fold m = .error failure) (hle : position ≤ c.position) :
    Stuck m failure position ((closeParen fault c).map fun c' => (t, c')) := by
  unfold closeParen
  split
  · exact ⟨hvalue, hle.trans (Nat.le_succ _)⟩
  · intro p hp
    obtain rfl : c.position = p := Option.some.inj hp
    exact hle

theorem readParens_tracks (hinner : Follows m levels build compute) (fault : Fault) (c : Cursor)
    (hlevels : nestingLimit < levels + 1 + c.depth) :
    Tracks m (readParens fault build c) (readParens fault compute c) := by
  unfold readParens
  by_cases hfull : nestingLimit ≤ c.depth
  · rw [openParen_of_le hfull]
    exact Or.inl rfl
  · rw [openParen_of_lt (by omega)]
    refine Tracks.bind (hinner c.opened (show c.depth + 1 ≤ nestingLimit by omega)
      (show nestingLimit < levels + (c.depth + 1) by omega)) ?_ ?_
    · exact fun t x c' _ hvalue => closeParen_tracks fault c' hvalue
    · exact fun t c' failure position _ hvalue hle => closeParen_stuck fault c' hvalue hle

theorem settle_tracks {t : Tree} {outcome : Except Failure α} (c : Cursor) (hvalue : t.fold m = outcome)
    (hfails : ∀ failure, outcome = .error failure → m.Fails failure) : Tracks m (.ok (t, c)) (settle c outcome) := by
  cases outcome with
  | ok x => exact ⟨t, rfl, hvalue⟩
  | error failure => exact Or.inr ⟨failure, rfl, hfails failure rfl, hvalue, Nat.le_refl _⟩

theorem readCall_tracks (hinner : Follows m levels build compute) (f : Function) (c : Cursor)
    (hlevels : nestingLimit < levels + 1 + c.depth) : Tracks m (readCall trees build f c) (readCall m compute f c) := by
  by_cases hhead : (c.skip f.name.toList.length).rest.head? = some '('
  · obtain ⟨rest, hrest⟩ := List.head?_eq_some_iff.mp hhead
    rw [readCall_of_cons trees build f hrest, readCall_of_cons m compute f hrest]
    refine Tracks.bind (readParens_tracks hinner _ _ hlevels) ?_ ?_
    · intro t x c' _ hvalue
      refine settle_tracks c' ?_ fun failure hfails => Or.inr ⟨f, x, hfails⟩
      simp only [Tree.fold, hvalue, bind, Except.bind]
    · intro t c' failure position _ hvalue hle
      refine ⟨?_, hle⟩
      simp only [Tree.fold, hvalue, bind, Except.bind]
  · rw [readCall_of_head trees build f hhead, readCall_of_head m compute f hhead]
    exact Tracks.refuse _ _

theorem readAtom_follows (hinner : Follows m levels build compute) :
    Follows m (levels + 1) (readAtom trees build) (readAtom m compute) := by
  intro c _ hlevels
  by_cases hhead : c.rest.head? = some '('
  · obtain ⟨rest, hrest⟩ := List.head?_eq_some_iff.mp hhead
    rw [readAtom_group trees build hrest, readAtom_group m compute hrest, readGroup_eq, readGroup_eq]
    exact readParens_tracks hinner _ c hlevels
  · rw [readAtom_of_head trees build hhead, readAtom_of_head m compute hhead]
    cases Function.match? c.rest with
    | none => exact readOperand_tracks c
    | some f => exact readCall_tracks hinner f c hlevels

/-! ## Signs and powers -/

theorem map_eq_bind {β γ : Type} (r : Except Halt (β × Cursor)) (f : β × Cursor → γ) :
    r.map f = r.bind fun p => .ok (f p) := by
  cases r <;> rfl

theorem readSigned_follows (hinner : Follows m levels build compute) :
    Follows m (levels + 1) (readSigned trees build) (readSigned m compute) := by
  intro c hdepth hlevels
  have hatom := readAtom_follows hinner
  by_cases hminus : c.rest.head? = some '-'
  · obtain ⟨rest, hrest⟩ := List.head?_eq_some_iff.mp hminus
    rw [readSigned_minus trees build hrest, readSigned_minus m compute hrest, map_eq_bind, map_eq_bind]
    refine Tracks.bind (hatom (c.skip 1) hdepth hlevels) ?_ ?_
    · intro t x c' _ hvalue
      refine ⟨.negate t, rfl, ?_⟩
      simp only [Tree.fold, hvalue, bind, Except.bind, pure, Except.pure]
    · intro t c' failure position _ hvalue hle
      refine ⟨?_, hle⟩
      simp only [trees, Tree.fold, hvalue, bind, Except.bind]
  · by_cases hplus : c.rest.head? = some '+'
    · obtain ⟨rest, hrest⟩ := List.head?_eq_some_iff.mp hplus
      rw [readSigned_plus trees build hrest, readSigned_plus m compute hrest]
      exact hatom (c.skip 1) hdepth hlevels
    · rw [readSigned_of_head trees build hminus hplus, readSigned_of_head m compute hminus hplus]
      exact hatom c hdepth hlevels

section
variable {l : Level} {read : Reader Tree}

/-- What a tree reader gives behind a cursor lies behind it, at the same depth. -/
theorem Sound.advances (h : Sound trees levels l read) (c : Cursor) (hdepth : c.depth ≤ nestingLimit)
    (hlevels : nestingLimit < levels + c.depth) {r : Tree × Cursor} (hread : read c = .ok r) :
    c.position ≤ r.2.position ∧ r.2.depth = c.depth := by
  have hexplained := h c hdepth hlevels
  rw [hread] at hexplained
  obtain ⟨p, hspans, -⟩ := hexplained
  exact ⟨by rw [hspans.position_eq]; omega, hspans.depth_eq⟩

theorem Sound.halts_behind (h : Sound trees levels l read) (c : Cursor) (hdepth : c.depth ≤ nestingLimit)
    (hlevels : nestingLimit < levels + c.depth) {halt : Halt} (hread : read c = .error halt) {p : Nat}
    (hp : halt.failure.position? = some p) : c.position ≤ p := by
  have hexplained := h c hdepth hlevels
  rw [hread] at hexplained
  exact failure_of_accounted_trees hexplained hp

end

theorem powerTail_stuck (hinner : Sound trees levels (.chain .sum) build) {t : Tree} {failure : Failure} {position : Nat}
    {c : Cursor} (hdepth : c.depth ≤ nestingLimit) (hlevels : nestingLimit < levels + 1 + c.depth)
    (hvalue : t.fold m = .error failure) (hle : position ≤ c.position) :
    Stuck m failure position (powerTail trees build t c) := by
  unfold powerTail
  split
  · have hstep : position ≤ (c.skip 1).position := hle.trans (Nat.le_succ _)
    have hsigned := readSigned_sound hinner
    cases hread : readSigned trees build (c.skip 1) with
    | error halt => exact fun p hp => hstep.trans (hsigned.halts_behind (c.skip 1) hdepth hlevels hread hp)
    | ok r =>
      refine ⟨?_, hstep.trans (hsigned.advances (c.skip 1) hdepth hlevels hread).1⟩
      simp only [trees, Tree.fold, hvalue, bind, Except.bind]
  · exact ⟨hvalue, hle⟩

theorem readPower_follows (hsound : Sound trees levels (.chain .sum) build) (hinner : Follows m levels build compute) :
    Follows m (levels + 1) (readPower trees build) (readPower m compute) := by
  intro c hdepth hlevels
  have hsigned := readSigned_follows hinner
  have hreads := readSigned_sound hsound
  rw [readPower_eq, readPower_eq]
  refine Tracks.bind (hsigned c hdepth hlevels) ?_ ?_
  · intro t x c' hbuilt hvalue
    have hdepth' : c'.depth = c.depth := (hreads.advances c hdepth hlevels hbuilt).2
    simp only [powerTail]
    split
    · rw [map_eq_bind, map_eq_bind]
      refine Tracks.bind (hsigned (c'.skip 1) (show c'.depth ≤ nestingLimit by omega)
        (show nestingLimit < levels + 1 + c'.depth by omega)) ?_ ?_
      · intro e y c'' _ hvalue'
        refine ⟨.power t e, rfl, ?_⟩
        simp only [Tree.fold, hvalue, hvalue', bind, Except.bind, pure, Except.pure]
      · intro e c'' failure position _ hvalue' hle
        refine ⟨?_, hle⟩
        simp only [trees, Tree.fold, hvalue, hvalue', bind, Except.bind]
    · exact ⟨t, rfl, hvalue⟩
  · intro t c' failure position hbuilt hvalue hle
    have hdepth' : c'.depth = c.depth := (hreads.advances c hdepth hlevels hbuilt).2
    exact powerTail_stuck (c := c') hsound (by omega) (by omega) hvalue hle

/-! ## Chains -/

theorem readChain_stuck {rank : Rank} (hsound : Sound trees levels rank.operand build) {failure : Failure}
    {position : Nat} (budget : List Char) (t : Tree) (c : Cursor) (hdepth : c.depth ≤ nestingLimit)
    (hlevels : nestingLimit < levels + c.depth) (hvalue : t.fold m = .error failure) (hle : position ≤ c.position) :
    Stuck m failure position (readChain trees rank.operator? build budget t c) := by
  induction budget generalizing t c with
  | nil => exact ⟨hvalue, hle⟩
  | cons d budget ih =>
    cases hoperator : rank.operator? c.rest with
    | none =>
      rw [readChain_of_none trees hoperator]
      exact ⟨hvalue, hle⟩
    | some op =>
      rw [readChain_of_some trees hoperator]
      have hstep : position ≤ (c.skip 1).position := hle.trans (Nat.le_succ _)
      cases hread : build (c.skip 1) with
      | error halt => exact fun p hp => hstep.trans (hsound.halts_behind (c.skip 1) hdepth hlevels hread hp)
      | ok r =>
        have hadvances := hsound.advances (c.skip 1) hdepth hlevels hread
        have hdepth' : r.2.depth = c.depth := hadvances.2
        refine ih (.binary op c.position t r.1) r.2 (by omega) (by omega) ?_ (hstep.trans hadvances.1)
        simp only [Tree.fold, hvalue, bind, Except.bind]

/-- Where an operation fails only the tree reader goes on, and it stays stuck until the end of the chain. -/
theorem readChain_tracks {rank : Rank} (hsound : Sound trees levels rank.operand build)
    (hoperand : Follows m levels build compute) (budget : List Char) (t : Tree) (x : α) (c : Cursor)
    (hdepth : c.depth ≤ nestingLimit) (hlevels : nestingLimit < levels + c.depth) (hvalue : t.fold m = .ok x) :
    Tracks m (readChain trees rank.operator? build budget t c) (readChain m rank.operator? compute budget x c) := by
  induction budget generalizing t x c with
  | nil => exact ⟨t, rfl, hvalue⟩
  | cons d budget ih =>
    cases hoperator : rank.operator? c.rest with
    | none =>
      rw [readChain_of_none trees hoperator, readChain_of_none m hoperator]
      exact ⟨t, rfl, hvalue⟩
    | some op =>
      rw [readChain_of_some trees hoperator, readChain_of_some m hoperator]
      refine Tracks.bind (hoperand (c.skip 1) hdepth hlevels) ?_ ?_
      · intro u y c' hbuilt hvalue'
        have hdepth' : c'.depth = c.depth := (hsound.advances (c.skip 1) hdepth hlevels hbuilt).2
        have hfold : (Tree.binary op c.position t u).fold m = m.binary op c.position x y := by
          simp only [Tree.fold, hvalue, hvalue', bind, Except.bind]
        have hsettle : Tracks m (.ok (Tree.binary op c.position t u, c')) (settle c' (m.binary op c.position x y)) :=
          settle_tracks c' hfold fun failure hfails => Or.inl ⟨op, c.position, x, y, hfails⟩
        refine hsettle.bind ?_ ?_
        · intro v z c'' hok hvalue''
          obtain ⟨rfl, rfl⟩ := Prod.mk.inj (Except.ok.inj hok)
          exact ih _ z c' (by omega) (by omega) hvalue''
        · intro v c'' failure position hok hvalue'' hle
          obtain ⟨rfl, rfl⟩ := Prod.mk.inj (Except.ok.inj hok)
          exact readChain_stuck hsound budget _ c' (by omega) (by omega) hvalue'' hle
      · intro u c' failure position hbuilt hvalue' hle
        have hdepth' : c'.depth = c.depth := (hsound.advances (c.skip 1) hdepth hlevels hbuilt).2
        refine readChain_stuck hsound budget (.binary op c.position t u) c' (by omega) (by omega) ?_ hle
        simp only [Tree.fold, hvalue, hvalue', bind, Except.bind]

theorem chainOver_follows {rank : Rank} (hsound : Sound trees levels rank.operand build)
    (hoperand : Follows m levels build compute) :
    Follows m levels (chainOver trees rank build) (chainOver m rank compute) := by
  intro c hdepth hlevels
  unfold chainOver
  refine Tracks.bind (hoperand c hdepth hlevels) ?_ ?_
  · intro t x c' hbuilt hvalue
    have hdepth' : c'.depth = c.depth := (hsound.advances c hdepth hlevels hbuilt).2
    exact readChain_tracks hsound hoperand _ t x c' (by omega) (by omega) hvalue
  · intro t c' failure position hbuilt hvalue hle
    have hdepth' : c'.depth = c.depth := (hsound.advances c hdepth hlevels hbuilt).2
    exact readChain_stuck hsound _ t c' (by omega) (by omega) hvalue hle

/-! ## Whole texts -/

theorem readSum_follows (m : Meaning α) (levels : Nat) : Follows m levels (readSum trees levels) (readSum m levels) := by
  induction levels with
  | zero =>
    intro c hdepth hlevels
    omega
  | succ levels ih =>
    have hsound := readSum_sound trees levels
    have hpower := readPower_follows hsound ih
    have hpowerSound : Sound trees (levels + 1) Rank.product.operand (readPower trees (readSum trees levels)) :=
      readPower_sound hsound
    have hproductSound : Sound trees (levels + 1) Rank.sum.operand (readProduct trees (readSum trees levels)) :=
      chainOver_sound hpowerSound
    exact chainOver_follows hproductSound (chainOver_follows hpowerSound hpower)

end Reckoner.Expression
