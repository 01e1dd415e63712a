import Reckoner.Proofs.Session.Operand
import Reckoner.Proofs.Session.Typing

/-!
# The memory register over whole runs

No single number for the memory is not-a-number, and the display never gives an infinite one. The register becomes
not-a-number in one way only: it holds an infinity, and a key adds the opposite infinity or subtracts the same one. It stays
so until the register is cleared or another number is stored. A finite number that was stored is retrieved bit for bit,
whatever is pressed in between that does not write to the register.
-/

namespace Reckoner

set_option autoImplicit false

namespace Session

variable {t : Session} {x : Float}

/-! ## Numbers for the memory -/

theorem memoryOperand_isNaN (t : Session) : t.memoryOperand.isNaN = false := by
  unfold memoryOperand
  split
  · rfl
  · split
    · next hnonzero => exact (Double.isNonzeroNumber_iff.mp hnonzero).1
    · split
      · split
        · next hnonzero => exact (Double.isNonzeroNumber_iff.mp hnonzero).1
        · rfl
      · rfl

/-- An infinite number for the memory is the value of the expression. -/
theorem Consistent.memoryOperand_eq_iff (h : t.Consistent) {y : Float} (hy : y.isInf = true) :
    t.memoryOperand = y ↔ t.outcome = .ok y := by
  constructor
  · intro hoperand
    cases houtcome : t.outcome with
    | error failure =>
      rw [memoryOperand_of_error houtcome] at hoperand
      rw [← hoperand] at hy
      contradiction
    | ok x =>
      by_cases hnonzero : Double.isNonzeroNumber x = true
      · rw [← hoperand, memoryOperand_of_nonzero houtcome hnonzero]
      · rw [h.memoryOperand_of_zero houtcome (Bool.not_eq_true _ ▸ hnonzero)] at hoperand
        cases hshown : t.shown? with
        | none =>
          rw [hshown] at hoperand
          rw [← hoperand] at hy
          contradiction
        | some shown =>
          rw [hshown, Option.getD_some] at hoperand
          have hfinite := (h.shown?_finite hshown).1
          rw [hoperand] at hfinite
          rw [Double.isInf_of_isFinite hfinite] at hy
          contradiction
  · intro houtcome
    exact memoryOperand_of_nonzero houtcome (Double.isNonzeroNumber_of_isInf hy)

/-! ## Infinities that cancel -/

/-- The register holds an infinity, and the key adds the opposite one or subtracts the same one. -/
def Cancels (t : Session) (label : String) : Prop :=
  t.memory.value.isInf = true ∧
    (label = "M+" ∧ t.outcome = .ok (-t.memory.value) ∨ label = "M-" ∧ t.outcome = .ok t.memory.value)

/-- The labels of the keys behind which the register does not depend on what it held before. -/
def resettingLabels : List String := ["MC", "MS"]

theorem Consistent.adds_opposite_iff (h : t.Consistent) :
    t.memory.value.isInf = true ∧ t.memoryOperand = -t.memory.value ↔ t.Cancels "M+" := by
  constructor
  · rintro ⟨hinf, hoperand⟩
    exact ⟨hinf, Or.inl ⟨rfl, (h.memoryOperand_eq_iff (Double.isInf_neg hinf)).mp hoperand⟩⟩
  · rintro ⟨hinf, ⟨-, houtcome⟩ | ⟨hlabel, -⟩⟩
    · exact ⟨hinf, (h.memoryOperand_eq_iff (Double.isInf_neg hinf)).mpr houtcome⟩
    · exact absurd hlabel (by decide)

theorem Consistent.subtracts_same_iff (h : t.Consistent) :
    t.memory.value.isInf = true ∧ t.memoryOperand = t.memory.value ↔ t.Cancels "M-" := by
  constructor
  · rintro ⟨hinf, hoperand⟩
    exact ⟨hinf, Or.inr ⟨rfl, (h.memoryOperand_eq_iff hinf).mp hoperand⟩⟩
  · rintro ⟨hinf, ⟨hlabel, -⟩ | ⟨-, houtcome⟩⟩
    · exact absurd hlabel (by decide)
    · exact ⟨hinf, (h.memoryOperand_eq_iff hinf).mpr houtcome⟩

/-- A key leaves a register that is not-a-number behind if it was so and is not reset, or if infinities cancel. -/
theorem Consistent.press_memory_isNaN (h : t.Consistent) (label : String) : (t.press label).memory.value.isNaN = true ↔
    t.memory.value.isNaN = true ∧ label ∉ resettingLabels ∨ t.Cancels label := by
  by_cases hwriting : label ∈ Key.writingLabels
  · simp only [Key.writingLabels, List.mem_cons, List.not_mem_nil, or_false] at hwriting
    rcases hwriting with rfl | rfl | rfl | rfl
    · have hzero : (0 : Float).isNaN = false := rfl
      change (0 : Float).isNaN = true ↔ _
      rw [hzero]
      simp [Cancels, resettingLabels]
    · change (t.memory.value + t.memoryOperand).isNaN = true ↔ _
      rw [Double.isNaN_add, h.adds_opposite_iff, memoryOperand_isNaN]
      simp [resettingLabels]
    · change (t.memory.value - t.memoryOperand).isNaN = true ↔ _
      rw [Double.isNaN_sub, h.subtracts_same_iff, memoryOperand_isNaN]
      simp [resettingLabels]
    · change t.memoryOperand.isNaN = true ↔ _
      rw [memoryOperand_isNaN]
      simp [Cancels, resettingLabels]
  · have hresetting : label ∉ resettingLabels := by
      simp only [Key.writingLabels, resettingLabels, List.mem_cons, List.not_mem_nil, or_false] at hwriting ⊢
      tauto
    have hcancels : ¬ t.Cancels label := by
      rintro ⟨-, ⟨rfl, -⟩ | ⟨rfl, -⟩⟩ <;> exact absurd (by decide) hwriting
    rw [press_memory_eq t hwriting]
    simp only [hresetting, hcancels, not_false_eq_true, and_true, or_false]

/-- Somewhere in the run infinities cancel, and behind that no key resets the register. -/
def Cancelled (s : Settings) (labels : List String) : Prop :=
  ∃ front label back, labels = front ++ label :: back ∧ ((start s).pressAll front).Cancels label ∧
    ∀ other ∈ back, other ∉ resettingLabels

theorem split_concat {labels front back : List String} {last label : String} (h : labels ++ [last] = front ++ label :: back) :
    (front = labels ∧ label = last ∧ back = []) ∨ ∃ back', back = back' ++ [last] ∧ labels = front ++ label :: back' := by
  rcases List.eq_nil_or_concat back with rfl | ⟨back', last', rfl⟩
  · obtain ⟨rfl, hlast⟩ := List.append_inj' h rfl
    exact Or.inl ⟨rfl, (List.singleton_inj.mp hlast).symm, rfl⟩
  · rw [List.concat_eq_append, ← List.cons_append, ← List.append_assoc] at h
    obtain ⟨hlabels, hlast⟩ := List.append_inj' h rfl
    rw [List.concat_eq_append, List.singleton_inj.mp hlast]
    exact Or.inr ⟨back', rfl, hlabels⟩

theorem cancelled_concat (s : Settings) (labels : List String) (last : String) : Cancelled s (labels ++ [last]) ↔
    Cancelled s labels ∧ last ∉ resettingLabels ∨ ((start s).pressAll labels).Cancels last := by
  constructor
  · rintro ⟨front, label, back, hlabels, hcancels, hback⟩
    rcases split_concat hlabels with ⟨rfl, rfl, rfl⟩ | ⟨back', rfl, hlabels'⟩
    · exact Or.inr hcancels
    · refine Or.inl ⟨⟨front, label, back', hlabels', hcancels, fun other hother => ?_⟩, hback last (by simp)⟩
      exact hback other (List.mem_append_left _ hother)
  · rintro (⟨⟨front, label, back, rfl, hcancels, hback⟩, hlast⟩ | hcancels)
    · refine ⟨front, label, back ++ [last], by simp, hcancels, List.forall_mem_append.mpr ⟨hback, ?_⟩⟩
      exact List.forall_mem_singleton.mpr hlast
    · exact ⟨labels, last, [], rfl, hcancels, List.forall_mem_nil _⟩

/-- The register is not-a-number exactly when infinities cancelled in it and it was not reset since. -/
theorem pressAll_memory_isNaN (s : Settings) (labels : List String) :
    ((start s).pressAll labels).memory.value.isNaN = true ↔ Cancelled s labels := by
  induction labels using List.reverseRecOn with
  | nil =>
    have hzero : (0 : Float).isNaN = false := rfl
    change (0 : Float).isNaN = true ↔ _
    rw [hzero]
    simp [Cancelled]
  | append_singleton labels last ih =>
    rw [pressAll_concat, (start_pressAll_consistent s labels).press_memory_isNaN, ih, cancelled_concat]

/-- A text with an infinite value that is stored and then subtracted leaves not-a-number. -/
theorem store_subtract_isNaN (s : Settings) {label : String} (hlabel : label ∉ Key.commandLabels)
    (hvalue : Expression.evaluateChars s label.toList = .ok x) (hinf : x.isInf = true) :
    ((start s).pressAll [label, "MS", "M-"]).memory.value.isNaN = true := by
  have htyped := start_pressAll_typed (s := s) (List.forall_mem_singleton.mpr hlabel)
  have htext : typedText [label] = label.toList := List.append_nil _
  have houtcome : ((start s).press label).outcome = .ok x := htyped.outcome_eq.trans (htext ▸ hvalue)
  have hnonzero := Double.isNonzeroNumber_of_isInf hinf
  have hstored : (((start s).press label).press "MS").memory.value = x := memoryOperand_of_nonzero houtcome hnonzero
  have hoperand : (((start s).press label).press "MS").memoryOperand = x := memoryOperand_of_nonzero houtcome hnonzero
  change ((((start s).press label).press "MS").memory.value - (((start s).press label).press "MS").memoryOperand).isNaN = true
  rw [hstored, hoperand]
  exact (Double.isNaN_sub x x).mpr (Or.inr (Or.inr ⟨hinf, rfl⟩))

/-- A number of 310 nines is beyond the largest double and has an infinite value. -/
theorem isNaN_nines :
    ((start {}).pressAll [String.ofList (List.replicate 310 '9'), "MS", "M-"]).memory.value.isNaN = true := by
  have hvalue : Expression.evaluateChars {} (List.replicate 310 '9') = .ok (Double.infinity false) := by decide +kernel
  rw [← @String.toList_ofList (List.replicate 310 '9')] at hvalue
  exact store_subtract_isNaN {} (by decide +kernel) hvalue (Double.isInf_infinity false)

/-! ## Storing and retrieving -/

theorem outcome_positional (hfinite : x.isFinite = true) (t : Session) :
    outcome { t with expression := Double.positional x } = .ok x :=
  Expression.evaluateChars_positional _ hfinite

/-- Retrieving a finite number and evaluating shows it in a session that is new but for the settings and the memory. -/
theorem retrieve_equals (hstored : t.memory.stored? = some x) (hfinite : x.isFinite = true) :
    t.pressAll ["MR", "="] =
      { start t.settings with display := Display.format t.settings x, value := x, memory := t.memory } := by
  have hretrieve : t.press "MR" = { t with expression := Double.positional x } := by
    change t.retrieveMemory = _
    rw [retrieveMemory, hstored]
    exact if_pos hfinite
  change ((t.press "MR").press "=") = _
  rw [hretrieve]
  exact commit_of_ok (Expression.positional_ne_nil hfinite) (outcome_positional hfinite t)

/--
A finite number that was stored is retrieved bit for bit: whatever is pressed in between that does not write to the memory,
behind `MR` and `=` the session shows the number, still holds it in the memory and is new in all else.
-/
theorem store_retrieve (t : Session) {labels : List String} {x : Float}
    (hstored : (t.press "MS").memory.stored? = some x) (hfinite : x.isFinite = true)
    (hlabels : ∀ label ∈ labels, label ∉ Key.writingLabels) :
    t.pressAll ("MS" :: labels ++ ["MR", "="]) =
      { start t.settings with display := Display.format t.settings x, value := x, memory := ⟨x, true⟩ } := by
  have hkept : ((t.press "MS").pressAll labels).memory = (t.press "MS").memory := pressAll_memory_eq _ hlabels
  have hsettings : ((t.press "MS").pressAll labels).settings = t.settings := pressAll_settings (t.press "MS") labels
  have hmemory : (t.press "MS").memory = ⟨x, true⟩ := by
    rw [← Option.some.inj hstored]
    rfl
  have hretrieve := retrieve_equals (hkept ▸ hstored) hfinite
  rw [pressAll_append]
  rw [hsettings, hkept, hmemory] at hretrieve
  exact hretrieve

/-- A tenth comes back although it was cleared and a product was evaluated in between. -/
theorem store_retrieve_tenth :
    (((start {}).pressAll ["0", ".", "1"]).press "MS").memory.stored? = some 0.1 ∧ (0.1 : Float).isFinite = true ∧
      (∀ label ∈ ["AC", "2", "×", "3", "="], label ∉ Key.writingLabels) ∧
      ((start {}).pressAll ["0", ".", "1"]).pressAll ("MS" :: ["AC", "2", "×", "3", "="] ++ ["MR", "="]) =
        { start {} with display := Display.format {} 0.1, value := 0.1, memory := ⟨0.1, true⟩ } := by
  have hstored : (((start {}).pressAll ["0", ".", "1"]).press "MS").memory.stored? = some 0.1 := by decide +kernel
  have hlabels : ∀ label ∈ ["AC", "2", "×", "3", "="], label ∉ Key.writingLabels := by decide
  have hretrieve := store_retrieve _ hstored rfl hlabels
  rw [pressAll_settings] at hretrieve
  exact ⟨hstored, rfl, hlabels, hretrieve⟩

end Session

end Reckoner
