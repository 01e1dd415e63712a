import Mathlib
import Reckoner.Curve

/-!
# Segments of a curve

A curve falls into the blocks of present points that cannot be extended. The loop that counts segments looks at one
point and at whether the point before it was present; it counts each block at its first point.
-/

namespace Reckoner.Curve

set_option autoImplicit false

/-! ## Blocks -/

section
variable {α : Type} (present : α → Bool)

/-- Whether a list has a present element at an index. -/
def presentAt (l : List α) (i : Nat) : Bool :=
  l[i]?.any present

/-- The indices from the first one to the one before the second are present, and nothing next to them is. -/
def IsBlock (l : List α) (block : Nat × Nat) : Prop :=
  block.1 < block.2 ∧ (∀ k < block.2, block.1 ≤ k → presentAt present l k = true) ∧
    (block.1 = 0 ∨ presentAt present l (block.1 - 1) = false) ∧ presentAt present l block.2 = false

instance (l : List α) : DecidablePred (IsBlock present l) :=
  fun _ => inferInstanceAs (Decidable (_ ∧ _ ∧ _ ∧ _))

/-- The maximal blocks of present elements, each as its first index and the index behind its last one. -/
def blocks (l : List α) : Finset (Nat × Nat) :=
  {block ∈ Finset.range l.length ×ˢ Finset.range (l.length + 1) | IsBlock present l block}

/-- Whether a block starts at an index, behind a list that ends with a present element or not. -/
def isStart (before : Bool) (l : List α) (i : Nat) : Bool :=
  presentAt present l i && !(if i = 0 then before else presentAt present l (i - 1))

variable {present} {l : List α} {i j : Nat}

theorem lt_length_of_presentAt (h : presentAt present l i = true) : i < l.length := by
  by_contra hge
  rw [presentAt, List.getElem?_eq_none (not_lt.mp hge)] at h
  contradiction

theorem presentAt_succ_cons (a : α) (l : List α) (i : Nat) : presentAt present (a :: l) (i + 1) = presentAt present l i := rfl

theorem mem_blocks : (i, j) ∈ blocks present l ↔ IsBlock present l (i, j) := by
  rw [blocks, Finset.mem_filter, Finset.mem_product, Finset.mem_range, Finset.mem_range, and_iff_right_iff_imp]
  rintro ⟨hlt, hinside, -, -⟩
  dsimp only at hlt hinside ⊢
  have hfirst := lt_length_of_presentAt (hinside i hlt le_rfl)
  have hlast := lt_length_of_presentAt (hinside (j - 1) (by omega) (by omega))
  omega

theorem IsBlock.isStart (h : IsBlock present l (i, j)) : isStart present false l i = true := by
  obtain ⟨hlt, hinside, hbefore, -⟩ := h
  rw [Curve.isStart, hinside i hlt le_rfl, Bool.true_and]
  rcases hbefore with hzero | hgap
  · rw [if_pos hzero]
    rfl
  · split
    · rfl
    · rw [hgap]
      rfl

theorem IsBlock.stop_unique {j' : Nat} (h : IsBlock present l (i, j)) (h' : IsBlock present l (i, j')) : j = j' := by
  have hle : ∀ {j j'}, IsBlock present l (i, j) → IsBlock present l (i, j') → j ≤ j' := by
    intro j j' h h'
    by_contra hlt
    have hpresent := h.2.1 j' (not_le.mp hlt) h'.1.le
    rw [h'.2.2.2] at hpresent
    exact absurd hpresent (by decide)
  exact le_antisymm (hle h h') (hle h' h)

/-- From a start the block goes on up to the first gap behind it. -/
theorem exists_block_of_isStart (h : isStart present false l i = true) : ∃ j, IsBlock present l (i, j) := by
  rw [isStart, Bool.and_eq_true, Bool.not_eq_true'] at h
  obtain ⟨hpresent, hbefore⟩ := h
  have hgap : ∃ j, i < j ∧ presentAt present l j = false := by
    refine ⟨l.length, lt_length_of_presentAt hpresent, ?_⟩
    rw [presentAt, List.getElem?_eq_none le_rfl]
    rfl
  obtain ⟨hlt, hbehind⟩ := Nat.find_spec hgap
  refine ⟨Nat.find hgap, hlt, fun k hk hik => ?_, ?_, hbehind⟩
  · rcases hik.eq_or_lt with rfl | hbetween
    · exact hpresent
    · have hno := Nat.find_min hgap hk
      simpa [hbetween] using hno
  · by_cases hzero : i = 0
    · exact Or.inl hzero
    · rw [if_neg hzero] at hbefore
      exact Or.inr hbefore

theorem card_blocks (present : α → Bool) (l : List α) :
    (blocks present l).card = (List.range l.length).countP (isStart present false l) := by
  have hcount : (List.range l.length).countP (isStart present false l) =
      ({i ∈ Finset.range l.length | isStart present false l i = true} : Finset Nat).card := by
    rw [List.countP_eq_length_filter, Finset.card_def, Finset.filter_val, Finset.range_val, Multiset.range,
      Multiset.filter_coe, Multiset.coe_card]
    simp only [Bool.decide_eq_true]
  rw [hcount]
  refine Finset.card_bij (fun block _ => block.1) ?_ ?_ ?_
  · rintro ⟨i, j⟩ hblock
    have h := mem_blocks.mp hblock
    exact Finset.mem_filter.mpr ⟨Finset.mem_range.mpr (lt_length_of_presentAt (h.2.1 i h.1 le_rfl)), h.isStart⟩
  · rintro ⟨i, j⟩ hblock ⟨i', j'⟩ hblock' hsame
    obtain rfl : i = i' := hsame
    rw [(mem_blocks.mp hblock).stop_unique (mem_blocks.mp hblock')]
  · intro i hi
    obtain ⟨j, h⟩ := exists_block_of_isStart (Finset.mem_filter.mp hi).2
    exact ⟨(i, j), mem_blocks.mpr h, rfl⟩

theorem presentAt_map {β : Type} (present : β → Bool) (f : α → β) (l : List α) (i : Nat) :
    presentAt present (l.map f) i = presentAt (present ∘ f) l i := by
  rw [presentAt, presentAt, List.getElem?_map]
  cases l[i]? <;> rfl

theorem blocks_map {β : Type} (present : β → Bool) (f : α → β) (l : List α) :
    blocks present (l.map f) = blocks (present ∘ f) l := by
  ext ⟨i, j⟩
  rw [mem_blocks, mem_blocks]
  simp only [IsBlock, presentAt_map]

/-- Behind an element the blocks that follow start where they do, unless they continue a block of the element. -/
theorem isStart_succ_cons (before : Bool) (a : α) (l : List α) (i : Nat) :
    isStart present before (a :: l) (i + 1) = isStart present (present a) l i := by
  unfold isStart
  rw [presentAt_succ_cons, if_neg i.succ_ne_zero, Nat.add_sub_cancel]
  cases i with
  | zero => rfl
  | succ i => rfl

end

/-! ## The count of the loop -/

/-- The loop counts the starts of blocks; the flag stands for the point before the list. -/
theorem segmentsAfter_eq_countP (before : Bool) (points : List CurvePoint) :
    segmentsAfter before points = (List.range points.length).countP (isStart CurvePoint.present before points) := by
  induction points generalizing before with
  | nil => rfl
  | cons p rest ih =>
    have hrest : isStart CurvePoint.present before (p :: rest) ∘ Nat.succ = isStart CurvePoint.present p.present rest :=
      funext fun i => isStart_succ_cons before p rest i
    have hfirst : isStart CurvePoint.present before (p :: rest) 0 = (p.present && !before) := rfl
    rw [segmentsAfter, ih, List.length_cons, List.range_succ_eq_map, List.countP_cons, List.countP_map, hrest, hfirst,
      Nat.add_comm]

theorem countSegments_eq_card (points : List CurvePoint) :
    countSegments points = (blocks CurvePoint.present points).card := by
  rw [card_blocks]
  exact segmentsAfter_eq_countP false points

/-! ## Bounds -/

theorem segmentsAfter_le_present (before : Bool) (points : List CurvePoint) :
    segmentsAfter before points ≤ points.countP CurvePoint.present := by
  induction points generalizing before with
  | nil => exact Nat.le_refl 0
  | cons p rest ih =>
    have hrest := ih p.present
    rw [segmentsAfter, List.countP_cons]
    cases p.present <;> cases before <;> simp_all <;> omega

/-- Between two blocks there is a gap, and the flag counts as a point of the first block. -/
theorem segmentsAfter_le_gaps (before : Bool) (points : List CurvePoint) :
    segmentsAfter before points + before.toNat ≤ points.countP (fun p => !p.present) + 1 := by
  induction points generalizing before with
  | nil => exact Nat.add_le_add (Nat.le_refl 0) (Bool.toNat_le before)
  | cons p rest ih =>
    have hrest := ih p.present
    rw [segmentsAfter, List.countP_cons]
    cases p.present <;> cases before <;> simp_all <;> omega

theorem segmentsAfter_false (points : List CurvePoint) :
    segmentsAfter false points = segmentsAfter true points + (points.head?.any CurvePoint.present).toNat := by
  cases points with
  | nil => rfl
  | cons p rest =>
    rw [segmentsAfter, segmentsAfter, List.head?_cons, Option.any_some, Nat.add_right_comm]
    cases p.present <;> rfl

/-! ## Lists that are put together or reversed -/

theorem segmentsAfter_append (before : Bool) (points rest : List CurvePoint) :
    segmentsAfter before (points ++ rest) =
      segmentsAfter before points + segmentsAfter ((points.getLast?.map CurvePoint.present).getD before) rest := by
  induction points generalizing before with
  | nil => exact (Nat.zero_add _).symm
  | cons p points ih =>
    have hlast : ((p :: points).getLast?.map CurvePoint.present).getD before =
        (points.getLast?.map CurvePoint.present).getD p.present := by
      rw [List.getLast?_cons, Option.map_some, Option.getD_some]
      cases points.getLast? <;> rfl
    rw [List.cons_append, segmentsAfter, segmentsAfter, ih, hlast, Nat.add_assoc]

/-- Whether a block goes on from the end of one list to the beginning of another. -/
def joins (points rest : List CurvePoint) : Bool :=
  points.getLast?.any CurvePoint.present && rest.head?.any CurvePoint.present

/-- A block that goes on from one list to the next is counted in both. -/
theorem countSegments_append (points rest : List CurvePoint) :
    countSegments (points ++ rest) + (joins points rest).toNat = countSegments points + countSegments rest := by
  unfold countSegments joins
  rw [segmentsAfter_append]
  cases hlast : points.getLast? with
  | none =>
    rw [Option.map_none, Option.any_none, Bool.false_and]
    rfl
  | some p =>
    rw [Option.map_some, Option.getD_some, Option.any_some]
    cases p.present with
    | false => rfl
    | true => rw [Bool.true_and, segmentsAfter_false rest, Nat.add_assoc]

theorem countSegments_reverse (points : List CurvePoint) : countSegments points.reverse = countSegments points := by
  induction points with
  | nil => rfl
  | cons p rest ih =>
    have hfront := countSegments_append [p] rest
    have hback := countSegments_append rest.reverse [p]
    have hjoins : joins rest.reverse [p] = joins [p] rest := by
      unfold joins
      rw [List.getLast?_reverse, Bool.and_comm]
      rfl
    rw [ih, hjoins] at hback
    rw [List.reverse_cons, ← List.singleton_append (l := rest)]
    omega

theorem countSegments_eq_zero (points : List CurvePoint) :
    countSegments points = 0 ↔ ∀ p ∈ points, p.present = false := by
  constructor
  · intro h
    induction points with
    | nil => exact fun p hp => absurd hp List.not_mem_nil
    | cons p rest ih =>
      rw [countSegments, segmentsAfter, Nat.add_eq_zero_iff] at h
      cases hp : p.present with
      | false =>
        rw [hp] at h
        exact List.forall_mem_cons.mpr ⟨hp, ih h.2⟩
      | true =>
        rw [hp] at h
        exact absurd h.1 Nat.one_ne_zero
  · intro h
    have hle := segmentsAfter_le_present false points
    have hnone : points.countP CurvePoint.present = 0 := List.countP_eq_zero.mpr fun p hp => by rw [h p hp]; decide
    exact Nat.le_zero.mp (hnone ▸ hle)

end Reckoner.Curve
