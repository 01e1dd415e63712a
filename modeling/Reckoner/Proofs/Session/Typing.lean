import Reckoner.Proofs.Session.Coherence

/-!
# Typing an expression key by key

Keys without a meaning of their own type their labels. However many of the half-typed texts on the way fail or have a
value, the expression is the text of all the labels, and the display shows the value of the longest part of it, from
the first key on, that has one. So `=` behind the keys gives what evaluating the whole text at once gives.
-/

namespace Reckoner

set_option autoImplicit false

def Key.commandLabels : List String := ["AC", "C", "=", "±", "%", "⌫", "MC", "MR", "M+", "M-", "MS"]

theorem Key.ofLabel_of_not_mem {label : String} (h : label ∉ commandLabels) : ofLabel label = .typed label := by
  simp only [commandLabels, List.mem_cons, List.not_mem_nil, or_false, not_or, ← beq_eq_false_iff_ne] at h
  simp [ofLabel, commands, MemoryKey.ofLabel?, List.lookup, h]

namespace Session

/-! ## The text of keys -/

def typedText (labels : List String) : List Char :=
  labels.flatMap String.toList

theorem typedText_concat (labels : List String) (label : String) :
    typedText (labels ++ [label]) = typedText labels ++ label.toList := by
  simp [typedText]

theorem typedText_eq_nil {front labels : List String} (hfront : front <+: labels) (h : typedText labels = []) :
    typedText front = [] := by
  obtain ⟨back, rfl⟩ := hfront
  rw [typedText, List.flatMap_append] at h
  exact (List.append_eq_nil_iff.mp h).1

variable {s : Settings} {labels front : List String} {x : Float}

/-- `front` is the longest part of the keys, from the first one on, whose text has a value, and `x` is the value. -/
structure LongestValued (s : Settings) (labels front : List String) (x : Float) : Prop where
  front_of : front <+: labels
  typed : typedText front ≠ []
  value : Expression.evaluateChars s (typedText front) = .ok x
  longest : ∀ longer y, longer <+: labels → front.length < longer.length →
    Expression.evaluateChars s (typedText longer) ≠ .ok y

/-- No part of the keys, from the first one on, has a text with a value. -/
def NeverValued (s : Settings) (labels : List String) : Prop :=
  ∀ front x, front <+: labels → typedText front ≠ [] → Expression.evaluateChars s (typedText front) ≠ .ok x

theorem LongestValued.of_value (hne : typedText labels ≠ []) (hx : Expression.evaluateChars s (typedText labels) = .ok x) :
    LongestValued s labels labels x :=
  ⟨List.prefix_refl _, hne, hx, fun _ _ hlonger hlength => absurd hlonger.length_le (not_le.mpr hlength)⟩

/-- A key that makes the text fail does not change which part is the longest one with a value. -/
theorem LongestValued.concat (h : LongestValued s labels front x) {label : String} {failure : Expression.Failure}
    (hfailure : Expression.evaluateChars s (typedText (labels ++ [label])) = .error failure) :
    LongestValued s (labels ++ [label]) front x := by
  refine ⟨h.front_of.trans (List.prefix_append _ _), h.typed, h.value, fun longer y hlonger hlength hy => ?_⟩
  rcases List.prefix_concat_iff.mp hlonger with rfl | hlonger
  · exact nomatch hfailure.symm.trans hy
  · exact h.longest longer y hlonger hlength hy

theorem NeverValued.concat (h : NeverValued s labels) {label : String} {failure : Expression.Failure}
    (hfailure : Expression.evaluateChars s (typedText (labels ++ [label])) = .error failure) :
    NeverValued s (labels ++ [label]) := by
  intro front x hfront hne hx
  rcases List.prefix_concat_iff.mp hfront with rfl | hfront
  · exact nomatch hfailure.symm.trans hx
  · exact h front x hfront hne hx

theorem NeverValued.of_nil (h : typedText labels = []) : NeverValued s labels :=
  fun _ _ hfront hne => absurd (typedText_eq_nil hfront h) hne

/-! ## Sessions behind typed keys -/

/-- The session behind keys that were all typed. -/
structure Typed (s : Settings) (labels : List String) (t : Session) : Prop where
  settings_eq : t.settings = s
  expression_eq : t.expression = typedText labels
  failure_eq : t.failure = none
  memory_eq : t.memory = .empty
  shown : (∃ front x, LongestValued s labels front x ∧ t.display = Display.format s x ∧ t.value = x) ∨
    NeverValued s labels ∧ t.display = "0" ∧ t.value = 0

theorem start_typed (s : Settings) : Typed s [] (start s) where
  settings_eq := rfl
  expression_eq := rfl
  failure_eq := rfl
  memory_eq := rfl
  shown := Or.inr ⟨.of_nil rfl, rfl, rfl⟩

/-- The preview of a longer text shows its value, or it keeps what was shown before. -/
theorem preview_typed {t : Session} {label : String} (h : Typed s labels t) :
    Typed s (labels ++ [label]) { t with expression := t.expression ++ label.toList }.preview := by
  have hexpression : t.expression ++ label.toList = typedText (labels ++ [label]) := by
    rw [h.expression_eq, typedText_concat]
  have houtcome : outcome { t with expression := t.expression ++ label.toList } =
      Expression.evaluateChars s (typedText (labels ++ [label])) := by
    simp only [outcome, h.settings_eq, hexpression]
  unfold preview
  split
  · next hempty =>
    have hnil : typedText (labels ++ [label]) = [] := hexpression ▸ List.isEmpty_iff.mp hempty
    have hbefore : typedText labels = [] := typedText_eq_nil (List.prefix_append _ _) hnil
    refine ⟨h.settings_eq, hexpression, rfl, h.memory_eq, Or.inr ⟨.of_nil hnil, ?_⟩⟩
    rcases h.shown with ⟨front, x, hlongest, -⟩ | ⟨-, hzero⟩
    · exact absurd (typedText_eq_nil hlongest.front_of hbefore) hlongest.typed
    · exact hzero
  · next hempty =>
    have htyped : typedText (labels ++ [label]) ≠ [] := fun hnil => hempty (List.isEmpty_iff.mpr (hexpression.trans hnil))
    split
    · next x hx =>
      have hlongest := LongestValued.of_value htyped (houtcome.symm.trans hx)
      have hdisplay : Display.format t.settings x = Display.format s x := by rw [h.settings_eq]
      exact ⟨h.settings_eq, hexpression, rfl, h.memory_eq, Or.inl ⟨_, x, hlongest, hdisplay, rfl⟩⟩
    · next failure hfailure =>
      have hfailure' := houtcome.symm.trans hfailure
      refine ⟨h.settings_eq, hexpression, rfl, h.memory_eq, ?_⟩
      rcases h.shown with ⟨front, x, hlongest, hshown⟩ | ⟨hnever, hzero⟩
      · exact Or.inl ⟨front, x, hlongest.concat hfailure', hshown⟩
      · exact Or.inr ⟨hnever.concat hfailure', hzero⟩

theorem start_pressAll_typed (h : ∀ label ∈ labels, label ∉ Key.commandLabels) :
    Typed s labels ((start s).pressAll labels) := by
  induction labels using List.reverseRecOn with
  | nil => exact start_typed s
  | append_singleton labels label ih =>
    have hlabel : Key.ofLabel label = .typed label := Key.ofLabel_of_not_mem (h label (by simp))
    rw [pressAll_concat, press, hlabel]
    exact preview_typed (ih fun other hother => h other (List.mem_append_left _ hother))

/-! ## Pressing `=` behind typed keys -/

theorem commit_of_ok {t : Session} (hne : t.expression ≠ []) (hx : t.outcome = .ok x) :
    t.commit = { t.showResult x with failure := none, expression := [] } := by
  unfold commit
  rw [if_neg (mt List.isEmpty_iff.mp hne), hx]

theorem commit_of_error {t : Session} {failure : Expression.Failure} (hne : t.expression ≠ [])
    (hfailure : t.outcome = .error failure) : t.commit = { t with failure := some failure } := by
  unfold commit
  rw [if_neg (mt List.isEmpty_iff.mp hne), hfailure]

theorem Typed.outcome_eq {t : Session} (h : Typed s labels t) :
    t.outcome = Expression.evaluateChars s (typedText labels) := by
  rw [outcome, h.settings_eq, h.expression_eq]

theorem Typed.press_equals_of_ok {t : Session} (h : Typed s labels t) (hne : typedText labels ≠ [])
    (hx : Expression.evaluateChars s (typedText labels) = .ok x) :
    t.press "=" = { start s with display := Display.format s x, value := x } := by
  change t.commit = _
  rw [commit_of_ok (h.expression_eq ▸ hne) (h.outcome_eq.trans hx)]
  dsimp only [showResult]
  rw [h.settings_eq, h.memory_eq]
  rfl

theorem Typed.press_equals_of_error {t : Session} (h : Typed s labels t) {failure : Expression.Failure}
    (hfailure : Expression.evaluateChars s (typedText labels) = .error failure) :
    t.press "=" = { t with failure := some failure } := by
  have hne : typedText labels ≠ [] := Expression.ne_nil_of_error hfailure
  exact commit_of_error (h.expression_eq ▸ hne) (h.outcome_eq.trans hfailure)

/--
Typing an expression key by key ends with its text as the expression and with the value of its longest valued part on
the display. Then `=` shows the value of the whole text in an otherwise fresh session, or it keeps the failure of the
whole text and nothing else changes.
-/
theorem pressAll_typed (s : Settings) (labels : List String) (h : ∀ label ∈ labels, label ∉ Key.commandLabels) :
    Typed s labels ((start s).pressAll labels) ∧
      (∀ x, typedText labels ≠ [] → Expression.evaluateChars s (typedText labels) = .ok x →
        ((start s).pressAll labels).press "=" = { start s with display := Display.format s x, value := x }) ∧
      ∀ failure, Expression.evaluateChars s (typedText labels) = .error failure →
        ((start s).pressAll labels).press "=" = { (start s).pressAll labels with failure := some failure } := by
  have htyped := start_pressAll_typed (s := s) h
  exact ⟨htyped, fun x hne hx => htyped.press_equals_of_ok hne hx, fun failure hfailure => htyped.press_equals_of_error hfailure⟩

/-- Behind `2`, `×` and `3` the sign of equality shows six. -/
theorem pressAll_typed_product :
    (∀ label ∈ ["2", "×", "3"], label ∉ Key.commandLabels) ∧
      ((start {}).pressAll ["2", "×", "3"]).press "=" = { start {} with display := Display.format {} 6, value := 6 } := by
  have hlabels : ∀ label ∈ ["2", "×", "3"], label ∉ Key.commandLabels := by decide
  exact ⟨hlabels, (pressAll_typed {} _ hlabels).2.1 6 (by decide) (by decide +kernel)⟩

end Session

end Reckoner
