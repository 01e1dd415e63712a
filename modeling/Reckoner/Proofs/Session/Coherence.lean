import Reckoner.Proofs.Expression.Numeral
import Reckoner.Session

/-!
# The preview describes the expression

A session is coherent when the preview shows the outcome of the typed expression and the failure kept from the last
`=` is still its failure. Every key that ends in a preview makes a session coherent, whatever it was before. The one
exception is the key that retrieves the number in memory: it replaces the expression and computes no preview, so the
display, the value and both failures still belong to the expression before. The next key that is no memory key makes
up for it.
-/

namespace Reckoner

set_option autoImplicit false

namespace Session

/-- The preview shows the outcome of the expression, and a failure kept from the last `=` is that of the expression. -/
structure Coherent (t : Session) : Prop where
  shown : ∀ x, t.expression ≠ [] → t.outcome = .ok x →
    t.previewFailure = none ∧ t.value = x ∧ t.display = Display.format t.settings x
  failed : ∀ failure, t.expression ≠ [] → t.outcome = .error failure → t.previewFailure = some failure
  kept : ∀ failure, t.failure = some failure → t.outcome = .error failure

/-! ## One preview -/

section
variable {t : Session} {x : Float}

theorem preview_of_nil (h : t.expression = []) : t.preview = { t with failure := none, previewFailure := none } := by
  rw [preview, if_pos (List.isEmpty_iff.mpr h)]

theorem preview_of_ok (hne : t.expression ≠ []) (hx : t.outcome = .ok x) :
    t.preview = { t with
      failure := none, previewFailure := none, value := x, display := Display.format t.settings x } := by
  rw [preview, if_neg (mt List.isEmpty_iff.mp hne), hx]
  rfl

theorem preview_of_error {failure : Expression.Failure} (hne : t.expression ≠ []) (hfailure : t.outcome = .error failure) :
    t.preview = { t with failure := none, previewFailure := some failure } := by
  rw [preview, if_neg (mt List.isEmpty_iff.mp hne), hfailure]

/-- The expression has a value that the session shows, and nothing fails. -/
structure Shows (t : Session) (x : Float) : Prop where
  expression : t.expression ≠ []
  outcome : t.outcome = .ok x
  value : t.value = x
  display : t.display = Display.format t.settings x
  failure : t.failure = none
  previewFailure : t.previewFailure = none

/-- The session with a result shown for a text, whatever stood there before. -/
def showing (t : Session) (text : List Char) (x : Float) : Session :=
  { t with
    expression := text, failure := none, previewFailure := none, value := x, display := Display.format t.settings x }

theorem preview_edited {text : List Char} (hne : text ≠ []) (hx : Expression.evaluateChars t.settings text = .ok x) :
    { t with expression := text }.preview = t.showing text x :=
  preview_of_ok (t := { t with expression := text }) hne hx

theorem showing_shows {text : List Char} (hne : text ≠ []) (hx : Expression.evaluateChars t.settings text = .ok x) :
    (t.showing text x).Shows x :=
  ⟨hne, hx, rfl, rfl, rfl, rfl⟩

end

/-! ## Keys that keep or make a session coherent -/

theorem start_coherent (s : Settings) : (start s).Coherent where
  shown _ h := absurd rfl h
  failed _ h := absurd rfl h
  kept _ h := nomatch h

theorem clear_coherent (t : Session) : t.clear.Coherent where
  shown _ h := absurd rfl h
  failed _ h := absurd rfl h
  kept _ h := nomatch h

theorem preview_coherent (t : Session) : t.preview.Coherent := by
  unfold preview
  split
  · next hempty =>
    have hnil : t.expression = [] := List.isEmpty_iff.mp hempty
    exact ⟨fun _ h => absurd hnil h, fun _ h => absurd hnil h, fun _ h => nomatch h⟩
  · split
    · next x hx =>
      refine ⟨fun y _ hy => ?_, fun failure _ hfailure => ?_, fun _ h => nomatch h⟩
      · obtain rfl : x = y := Except.ok.inj (hx.symm.trans hy)
        exact ⟨rfl, rfl, rfl⟩
      · exact nomatch hx.symm.trans hfailure
    · next failure hfailure =>
      refine ⟨fun y _ hy => absurd (hfailure.symm.trans hy) (by simp), fun failure' _ hfailure' => ?_, fun _ h => nomatch h⟩
      exact congrArg some (Except.error.inj (hfailure.symm.trans hfailure'))

/-- A result empties the expression; a failure is kept beside the preview's, which is the same. -/
theorem commit_coherent {t : Session} (h : t.Coherent ∨ t.expression ≠ [] ∧ ∃ x, t.outcome = .ok x) :
    t.commit.Coherent := by
  unfold commit
  split
  · next hempty => exact h.resolve_right fun hright => hright.1 (List.isEmpty_iff.mp hempty)
  · split
    · exact ⟨fun _ h => absurd rfl h, fun _ h => absurd rfl h, fun _ h => nomatch h⟩
    · next failure hfailure =>
      have hcoherent : t.Coherent := h.resolve_right fun ⟨_, _, hx⟩ => nomatch hfailure.symm.trans hx
      refine ⟨hcoherent.shown, hcoherent.failed, fun failure' hkept => ?_⟩
      rw [← Option.some.inj hkept]
      exact hfailure

theorem Coherent.with_memory {t : Session} (h : t.Coherent) (memory : Memory) :
    Coherent { t with memory := memory } :=
  ⟨h.shown, h.failed, h.kept⟩

/-! ## One key -/

/-- A key that is no memory key makes a session coherent that was so or whose expression has a value. -/
theorem press_coherent {t : Session} {label : String} (hlabel : ∀ key, Key.ofLabel label ≠ .memory key)
    (h : t.Coherent ∨ t.expression ≠ [] ∧ ∃ x, t.outcome = .ok x) : (t.press label).Coherent := by
  unfold press
  cases hkey : Key.ofLabel label with
  | clear => exact clear_coherent t
  | equals => exact commit_coherent h
  | memory key => exact absurd hkey (hlabel key)
  | backspace => exact preview_coherent _
  | sign => exact preview_coherent _
  | percent => exact preview_coherent _
  | typed label => exact preview_coherent _

theorem press_memory {t : Session} {label : String} {key : MemoryKey} (h : Key.ofLabel label = .memory key) :
    t.press label = t.pressMemory key := by
  rw [press, h]
  rfl

/-- A memory key leaves all but the memory as it was, or it types the finite number in memory. -/
theorem pressMemory_cases (t : Session) (key : MemoryKey) :
    (∃ memory, t.pressMemory key = { t with memory := memory }) ∨
      ∃ x, key = .retrieve ∧ t.memory.stored? = some x ∧ x.isFinite = true ∧
        t.pressMemory key = { t with expression := Double.positional x } := by
  cases key with
  | clear => exact Or.inl ⟨_, rfl⟩
  | add => exact Or.inl ⟨_, rfl⟩
  | subtract => exact Or.inl ⟨_, rfl⟩
  | store => exact Or.inl ⟨_, rfl⟩
  | retrieve =>
    dsimp only [pressMemory, retrieveMemory]
    split
    · next x hx =>
      split
      · next hfinite => exact Or.inr ⟨x, rfl, hx, hfinite, rfl⟩
      · exact Or.inl ⟨t.memory, rfl⟩
    · exact Or.inl ⟨t.memory, rfl⟩

/-! ## Whole runs -/

theorem preview_settings (t : Session) : t.preview.settings = t.settings := by
  unfold preview
  split
  · rfl
  · split <;> rfl

theorem commit_settings (t : Session) : t.commit.settings = t.settings := by
  unfold commit
  split
  · rfl
  · split <;> rfl

theorem toggleSign_settings (t : Session) : t.toggleSign.settings = t.settings := by
  unfold toggleSign
  split <;> rfl

theorem applyPercent_settings (t : Session) : t.applyPercent.settings = t.settings := by
  unfold applyPercent
  split
  · rfl
  · split
    · split <;> rfl
    · rfl

theorem pressMemory_settings (t : Session) (key : MemoryKey) : (t.pressMemory key).settings = t.settings := by
  rcases pressMemory_cases t key with ⟨memory, hsame⟩ | ⟨x, -, -, -, htyped⟩
  · rw [hsame]
  · rw [htyped]

theorem pressKey_settings (t : Session) (key : Key) : (t.pressKey key).settings = t.settings := by
  cases key with
  | clear => rfl
  | equals => exact commit_settings t
  | memory key => exact pressMemory_settings t key
  | backspace => exact preview_settings _
  | sign => exact (preview_settings _).trans (toggleSign_settings t)
  | percent => exact (preview_settings _).trans (applyPercent_settings t)
  | typed label => exact preview_settings _

theorem pressAll_concat (t : Session) (labels : List String) (label : String) :
    t.pressAll (labels ++ [label]) = (t.pressAll labels).press label :=
  List.foldl_concat ..

/--
Somewhere in the run the finite number in memory was typed in the place of the expression, and behind that only memory
keys were pressed: but for the expression and the memory the session is still the one before.
-/
structure Retrieved (s : Settings) (labels : List String) (x : Float) : Prop where
  state : ∃ front label back, labels = front ++ label :: back ∧ Key.ofLabel label = .memory .retrieve ∧
    (∀ other ∈ back, ∃ key, Key.ofLabel other = .memory key) ∧
    ((start s).pressAll front).memory.stored? = some x ∧
    (start s).pressAll labels = { (start s).pressAll front with
      expression := Double.positional x, memory := ((start s).pressAll labels).memory }
  finite : x.isFinite = true

theorem pressAll_settings (t : Session) (labels : List String) : (t.pressAll labels).settings = t.settings := by
  induction labels using List.reverseRecOn with
  | nil => rfl
  | append_singleton labels label ih =>
    rw [pressAll_concat, press, pressKey_settings, ih]

theorem Retrieved.expression_eq {s : Settings} {labels : List String} {x : Float} (h : Retrieved s labels x) :
    ((start s).pressAll labels).expression = Double.positional x := by
  obtain ⟨⟨front, label, back, -, -, -, -, hstate⟩, -⟩ := h
  rw [hstate]

theorem Retrieved.outcome_eq {s : Settings} {labels : List String} {x : Float} (h : Retrieved s labels x) :
    ((start s).pressAll labels).outcome = .ok x := by
  rw [outcome, h.expression_eq]
  exact Expression.evaluateChars_positional _ h.finite

theorem Retrieved.concat {s : Settings} {labels : List String} {x : Float} (h : Retrieved s labels x) {other : String}
    {key : MemoryKey} (hother : Key.ofLabel other = .memory key) {memory : Memory}
    (hsame : (start s).pressAll (labels ++ [other]) = { (start s).pressAll labels with memory := memory }) :
    Retrieved s (labels ++ [other]) x := by
  obtain ⟨⟨front, label, back, hlabels, hlabel, hback, hstored, hstate⟩, hfinite⟩ := h
  refine ⟨⟨front, label, back ++ [other], by simp [hlabels], hlabel, fun o ho => ?_, hstored, ?_⟩, hfinite⟩
  · rcases List.mem_append.mp ho with ho | ho
    · exact hback o ho
    · rw [List.mem_singleton.mp ho]
      exact ⟨key, hother⟩
  · rw [hsame, hstate]

/-- The last key decides: a memory key keeps what the run had reached or retrieves, every other key repairs. -/
theorem start_pressAll_coherent_or_retrieved (s : Settings) (labels : List String) :
    ((start s).pressAll labels).Coherent ∨ ∃ x, Retrieved s labels x := by
  induction labels using List.reverseRecOn with
  | nil => exact Or.inl (start_coherent s)
  | append_singleton labels label ih =>
    have hconcat := pressAll_concat (start s) labels label
    by_cases hlabel : ∃ key, Key.ofLabel label = .memory key
    · obtain ⟨key, hkey⟩ := hlabel
      rw [press_memory hkey] at hconcat
      rcases pressMemory_cases ((start s).pressAll labels) key with ⟨memory, hsame⟩ | ⟨x, rfl, hstored, hfinite, htyped⟩
      · rw [hsame] at hconcat
        rcases ih with hcoherent | ⟨x, hretrieved⟩
        · rw [hconcat]
          exact Or.inl (hcoherent.with_memory memory)
        · exact Or.inr ⟨x, hretrieved.concat hkey hconcat⟩
      · rw [htyped] at hconcat
        exact Or.inr ⟨x, ⟨labels, label, [], rfl, hkey, by simp, hstored, by rw [hconcat]⟩, hfinite⟩
    · rw [hconcat]
      refine Or.inl (press_coherent (fun key hkey => hlabel ⟨key, hkey⟩) (ih.imp_right fun ⟨x, hretrieved⟩ => ?_))
      exact ⟨hretrieved.expression_eq ▸ Expression.positional_ne_nil hretrieved.finite, x, hretrieved.outcome_eq⟩

/--
Every state that keys can lead to is coherent, unless the number in memory was typed in the place of the expression and
only memory keys were pressed behind that; then the expression has that number as its value.
-/
theorem coherent_or_retrieved (s : Settings) (labels : List String) :
    ((start s).pressAll labels).settings = s ∧
      (((start s).pressAll labels).Coherent ∨
        ∃ x, Retrieved s labels x ∧ ((start s).pressAll labels).outcome = .ok x) := by
  refine ⟨pressAll_settings _ _, ?_⟩
  rcases start_pressAll_coherent_or_retrieved s labels with hcoherent | ⟨x, hretrieved⟩
  · exact Or.inl hcoherent
  · exact Or.inr ⟨x, hretrieved, hretrieved.outcome_eq⟩

/-- Clearing shows zero, and retrieving the stored five types it without showing it. -/
theorem not_coherent_retrieve : ¬ ((start {}).pressAll ["5", "MS", "AC", "MR"]).Coherent := by
  intro h
  have hvalue := (h.shown 5 (by decide +kernel) (by decide +kernel)).2.1
  exact absurd hvalue (by decide +kernel)

end Session

end Reckoner
