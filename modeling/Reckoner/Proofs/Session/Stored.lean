import Reckoner.Proofs.Display.Again
import Reckoner.Proofs.Session.Operand

/-!
# Results stored off the display

Behind a result the expression is empty, and the key that stores takes the number on the display. The memory then shows the
text of the display, or at a threshold of the notation its change.
-/

namespace Reckoner

open Display (number? format shownAgain)

set_option autoImplicit false

namespace Session

variable {t : Session} {x y : Float}

/-- With nothing typed the number on the display is taken; a zero on it is taken without its sign. -/
theorem memoryOperand_of_blank (hblank : Expression.isBlankText t.expression = true) (hshown : t.shown? = some y)
    (hy : y.isFinite = true) : t.memoryOperand = if y == 0 then 0 else y := by
  simp only [memoryOperand, outcome_of_blank hblank, hshown, Double.isNonzeroNumber, Double.isNaN_of_isFinite hy,
    Bool.not_false, Bool.true_and]
  cases y == 0 <;> rfl

theorem format_of_zero (s : Settings) (hy : y.isFinite = true) (hzero : (y == 0) = true) : format s y = format s 0 := by
  rw [Display.format_zero, Display.format_of_exact_zero s hy ((Double.beq_zero_iff hy).mp hzero)]

/-- The memory shows the number stored off the display. -/
theorem store_snapshot (hblank : Expression.isBlankText t.expression = true) (hshown : t.shown? = some y)
    (hy : y.isFinite = true) : (t.press "MS").snapshot.memory = some (format t.settings y) := by
  have hmemory : (t.press "MS").snapshot.memory = some (format t.settings t.memoryOperand) := rfl
  rw [hmemory, memoryOperand_of_blank hblank hshown hy]
  split
  · next hzero => rw [format_of_zero _ hy hzero]
  · rfl

/--
The text of a finite double is read as a finite double with the same text, except that `10 ^ 15` without an exponent is shown
again with one, and `10 ^ -10` with an exponent without. So does the memory show a result that was stored off the display.
-/
theorem display_stored (s : Settings) {x : Float} (hx : x.isFinite = true) :
    (∃ y : Float, number? (format s x) = some y ∧ y.isFinite = true ∧ format s y = shownAgain (format s x)) ∧
      ∀ t : Session, t.settings = s → Expression.isBlankText t.expression = true → t.display = format s x →
        (t.press "MS").snapshot.memory = some (shownAgain (format s x)) := by
  obtain ⟨y, hread, hy, hagain⟩ := Display.number?_again s hx
  refine ⟨⟨y, hread, hy, hagain⟩, ?_⟩
  rintro t rfl hblank hdisplay
  have hshown : t.shown? = some y := by rw [shown?_eq, hdisplay, hread]
  rw [store_snapshot hblank hshown hy, hagain]

/-- Two thirds are shown with eight digits, and so is what is stored of them. -/
theorem display_stored_thirds :
    (0.66666666666666663 : Float).isFinite = true ∧ format {} 0.66666666666666663 = "0.66666667" ∧
      Expression.isBlankText ((start {}).pressAll ["2", "÷", "3", "="]).expression = true ∧
      ((start {}).pressAll ["2", "÷", "3", "="]).display = "0.66666667" ∧
      (((start {}).pressAll ["2", "÷", "3", "="]).press "MS").snapshot.memory = some "0.66666667" := by
  have htext : format {} 0.66666666666666663 = "0.66666667" := by decide +kernel
  have hblank : Expression.isBlankText ((start {}).pressAll ["2", "÷", "3", "="]).expression = true := by decide +kernel
  have hdisplay : ((start {}).pressAll ["2", "÷", "3", "="]).display = "0.66666667" := by decide +kernel
  have hstored := (display_stored {} (x := 0.66666666666666663) rfl).2 _ (pressAll_settings _ _) hblank
    (hdisplay.trans htext.symm)
  have hsame : shownAgain "0.66666667" = "0.66666667" := by decide
  rw [htext, hsame] at hstored
  exact ⟨rfl, htext, hblank, hdisplay, hstored⟩

/--
The double below `10 ^ 15` is shown as `10 ^ 15` without an exponent. What that is read as is shown with one, and so does
the memory show it.
-/
theorem not_display_stored :
    (999999999999999.9 : Float).isFinite = true ∧ format {} 999999999999999.9 = "1,000,000,000,000,000" ∧
      number? (format {} 999999999999999.9) = some 1e15 ∧ format {} 1e15 ≠ format {} 999999999999999.9 ∧
      ((start {}).pressAll ["999999999999999.9", "="]).display = "1,000,000,000,000,000" ∧
      (((start {}).pressAll ["999999999999999.9", "="]).press "MS").snapshot.memory = some "1.000000e+15" := by
  decide +kernel

end Session

end Reckoner
