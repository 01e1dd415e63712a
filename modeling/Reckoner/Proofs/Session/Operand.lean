import Reckoner.Proofs.Session.Calls

/-!
# The number for the memory

The rule for the keys that add, subtract and store is this: they take the value of the expression, else the number on the
display, else zero. The keys depart from it in two ways. For an expression that fails they take zero, whatever is on the
display. For an expression whose value is zero they take the number on the display; that shows only where a zero in memory
was retrieved behind another number, since else the display shows the zero.
-/

namespace Reckoner

set_option autoImplicit false

namespace Session

variable {t : Session} {x : Float}

/-- The number by the rule. A blank expression and not-a-number count as no value. -/
def ruledOperand (t : Session) : Float :=
  match t.outcome with
  | .ok x => if Expression.isBlankText t.expression || x.isNaN then t.shown?.getD 0 else x
  | .error _ => t.shown?.getD 0

/-! ## Numbers on the display -/

theorem shown?_eq (t : Session) : t.shown? = Display.number? t.display := rfl

theorem Consistent.shown?_eq_none_iff (h : t.Consistent) : t.shown? = none ↔ t.display ∈ Display.specialTexts := by
  rw [shown?_eq]
  refine ⟨fun hnone => ?_, Display.number?_special⟩
  rw [h.display_eq] at hnone ⊢
  rw [Display.format_mem_special_iff]
  by_contra hfinite
  obtain ⟨y, hread, -⟩ := Display.number?_finite t.settings (Bool.not_eq_false _ ▸ hfinite)
  exact nomatch hnone.symm.trans hread

theorem Consistent.shown?_finite (h : t.Consistent) {y : Float} (hshown : t.shown? = some y) :
    y.isFinite = true ∧ ((y == 0) = true → y = 0) := by
  rw [shown?_eq, h.display_eq] at hshown
  have hfinite : t.value.isFinite = true := by
    by_contra hspecial
    rw [Display.number?_special (Display.format_special _ (Bool.not_eq_true _ ▸ hspecial))] at hshown
    contradiction
  obtain ⟨y', hread, hy', hzero⟩ := Display.number?_finite t.settings hfinite
  obtain rfl : y' = y := Option.some.inj (hread.symm.trans hshown)
  refine ⟨hy', fun hbeq => ?_⟩
  have hexact : Double.exact y' = 0 := (Double.beq_zero_iff hy').mp hbeq
  rcases hzero with ⟨-, hy⟩ | ⟨-, hy⟩
  · exact hy
  · exact absurd hexact hy

theorem shown?_of_zero (hdisplay : t.display = Display.format t.settings x) (hx : x.isFinite = true)
    (hzero : (x == 0) = true) : t.shown? = some 0 := by
  have hexact : Double.exact x = 0 := (Double.beq_zero_iff hx).mp hzero
  obtain ⟨y, hread, -, hy⟩ := Display.number?_finite t.settings hx
  rcases hy with ⟨-, rfl⟩ | ⟨hne, -⟩
  · rw [shown?_eq, hdisplay, hread]
  · exact absurd hexact hne

/-! ## The number that is taken -/

theorem memoryOperand_of_error {failure : Expression.Failure} (h : t.outcome = .error failure) : t.memoryOperand = 0 := by
  rw [memoryOperand, h]

theorem memoryOperand_of_nonzero (hx : t.outcome = .ok x) (hnonzero : Double.isNonzeroNumber x = true) :
    t.memoryOperand = x := by
  simp only [memoryOperand, hx, hnonzero, if_true]

/-- For zero and for not-a-number the display stands in. -/
theorem Consistent.memoryOperand_of_zero (h : t.Consistent) (hx : t.outcome = .ok x)
    (hzero : Double.isNonzeroNumber x = false) : t.memoryOperand = t.shown?.getD 0 := by
  simp only [memoryOperand, hx, hzero, Bool.false_eq_true, if_false]
  cases hshown : t.shown? with
  | none => rfl
  | some y =>
    obtain ⟨hfinite, hy⟩ := h.shown?_finite hshown
    by_cases hbeq : (y == 0) = true
    · rw [hy hbeq]
      rfl
    · have hnonzero : Double.isNonzeroNumber y = true :=
        Double.isNonzeroNumber_iff.mpr ⟨Double.isNaN_of_isFinite hfinite, Bool.not_eq_true _ ▸ hbeq⟩
      simp only [hnonzero, if_true, Option.getD_some]

theorem outcome_of_blank (h : Expression.isBlankText t.expression = true) : t.outcome = .ok 0 := by
  rw [outcome, Expression.evaluateChars, if_pos h]

/-- Of an expression with a value the number by the rule is taken, unless something is typed and its value is zero. -/
theorem Consistent.memoryOperand_eq_ruled (h : t.Consistent) (hx : t.outcome = .ok x)
    (hcase : Expression.isBlankText t.expression = true ∨ (x == 0) = false) : t.memoryOperand = t.ruledOperand := by
  have hruled : t.ruledOperand = if Expression.isBlankText t.expression || x.isNaN then t.shown?.getD 0 else x := by
    rw [ruledOperand, hx]
  rw [hruled]
  by_cases hblank : Expression.isBlankText t.expression = true
  · obtain rfl : x = 0 := Except.ok.inj (hx.symm.trans (outcome_of_blank hblank))
    rw [if_pos (by rw [hblank, Bool.true_or])]
    exact h.memoryOperand_of_zero hx rfl
  · by_cases hnan : x.isNaN = true
    · rw [if_pos (by rw [hnan, Bool.or_true])]
      exact h.memoryOperand_of_zero hx (Double.isNonzeroNumber_of_isNaN hnan)
    · rw [if_neg (by rw [Bool.or_eq_true, not_or]; exact ⟨hblank, hnan⟩)]
      exact memoryOperand_of_nonzero hx (Double.isNonzeroNumber_iff.mpr ⟨Bool.not_eq_true _ ▸ hnan, hcase.resolve_left hblank⟩)

theorem Coherent.memoryOperand_of_zero (h : t.Coherent) (hconsistent : t.Consistent) (hx : t.outcome = .ok x)
    (hblank : Expression.isBlankText t.expression = false) (hzero : (x == 0) = true) : t.memoryOperand = 0 := by
  have hne : t.expression ≠ [] := by
    intro hnil
    rw [hnil] at hblank
    exact absurd hblank (by decide)
  obtain ⟨-, -, hdisplay⟩ := h.shown x hne hx
  rw [hconsistent.memoryOperand_of_zero hx (Double.isNonzeroNumber_of_zero hzero),
    shown?_of_zero hdisplay (Double.isFinite_of_beq_zero hzero) hzero]
  rfl

/-- What the memory keys work with in a session that calls lead to. -/
structure OperandLaw (s : Settings) (t : Session) : Prop where
  added : (t.press "M+").memory = t.memory.add t.memoryOperand
  subtracted : (t.press "M-").memory = t.memory.subtract t.memoryOperand
  stored : (t.press "MS").memory = t.memory.store t.memoryOperand
  shown : t.shown? = none ↔ t.display ∈ Display.specialTexts
  ruled : ∀ x, t.outcome = .ok x → Expression.isBlankText t.expression = true ∨ (x == 0) = false →
    t.memoryOperand = t.ruledOperand
  failing : ∀ failure, t.outcome = .error failure → t.memoryOperand = 0
  zero : ∀ x, t.outcome = .ok x → Expression.isBlankText t.expression = false → (x == 0) = true →
    t.memoryOperand = 0 ∨ t.memoryOperand = t.shown?.getD 0 ∧ ∃ labels, (start s).pressAll labels = t ∧ Retrieved s labels x

/--
The memory keys work with the number by the rule, with two exceptions: an expression that fails counts as zero, and where a
zero in memory was retrieved the number on the display counts. A zero that was typed counts as zero.
-/
theorem afterAll_operand (s : Settings) (calls : List Call) : OperandLaw s ((start s).afterAll calls) := by
  rw [afterAll_eq_pressAll]
  generalize calls.flatMap Call.labels = labels
  have hconsistent := start_pressAll_consistent s labels
  refine ⟨rfl, rfl, rfl, hconsistent.shown?_eq_none_iff, fun x hx hcase => hconsistent.memoryOperand_eq_ruled hx hcase,
    fun failure hfailure => memoryOperand_of_error hfailure, fun x hx hblank hzero => ?_⟩
  rcases start_pressAll_coherent_or_retrieved s labels with hcoherent | ⟨y, hretrieved⟩
  · exact Or.inl (hcoherent.memoryOperand_of_zero hconsistent hx hblank hzero)
  · obtain rfl : y = x := Except.ok.inj (hretrieved.outcome_eq.symm.trans hx)
    exact Or.inr ⟨hconsistent.memoryOperand_of_zero hx (Double.isNonzeroNumber_of_zero hzero), labels, rfl, hretrieved⟩

/--
Behind `1` and `/` the rule gives the one on the display, and the keys take zero. A zero that was retrieved behind a five
counts as zero by the rule, and the keys take the five.
-/
theorem not_ruledOperand :
    ((start {}).pressAll ["1", "/"]).memoryOperand = 0 ∧ ((start {}).pressAll ["1", "/"]).ruledOperand = 1 ∧
      ((start {}).pressAll ["0", "MS", "AC", "5", "=", "MR"]).memoryOperand = 5 ∧
      ((start {}).pressAll ["0", "MS", "AC", "5", "=", "MR"]).ruledOperand = 0 := by
  decide +kernel

end Session

end Reckoner
