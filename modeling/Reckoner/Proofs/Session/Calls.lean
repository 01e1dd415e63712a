import Reckoner.Proofs.Display.Shown
import Reckoner.Proofs.Number.Radix
import Reckoner.Proofs.Session.Coherence

/-!
# Sessions behind calls

A program drives a session by calls: it presses one key or many, it evaluates, it clears, or it works on the memory
register by a label. The calls lead to no session that keys do not lead to, and only a memory key with an unknown label is
refused. In every session that they lead to the display is the text of the value, nothing is failing while nothing is
typed, and an empty register holds zero.
-/

namespace Reckoner

set_option autoImplicit false

/-! ## Labels of memory keys -/

theorem mem_of_lookup {V : Type} {table : List (String × V)} {label : String} {v : V} (h : table.lookup label = some v) :
    (label, v) ∈ table := by
  obtain ⟨front, back, rfl, -⟩ := List.lookup_eq_some_iff.mp h
  exact List.mem_append_right _ List.mem_cons_self

namespace Key

def memoryLabels : List String := ["MC", "MR", "M+", "M-", "MS"]

/-- The labels of the keys that write to the memory register. -/
def writingLabels : List String := ["MC", "M+", "M-", "MS"]

theorem ofLabel?_eq_none_iff (label : String) : MemoryKey.ofLabel? label = none ↔ label ∉ memoryLabels := by
  simp [MemoryKey.ofLabel?, memoryLabels, List.lookup_eq_none_iff]

theorem ofLabel?_of_ofLabel {label : String} {key : MemoryKey} (h : ofLabel label = .memory key) :
    MemoryKey.ofLabel? label = some key := by
  unfold ofLabel at h
  split at h
  · next found hfound =>
    have hmem := mem_of_lookup hfound
    rw [h] at hmem
    simp [commands] at hmem
  · split at h
    · next found hfound => exact hfound.trans (congrArg some (memory.inj h))
    · contradiction

theorem ofLabel_of_ofLabel? {label : String} {key : MemoryKey} (h : MemoryKey.ofLabel? label = some key) :
    ofLabel label = .memory key := by
  have hmem := mem_of_lookup h
  simp only [List.mem_cons, List.not_mem_nil, or_false, Prod.mk.injEq] at hmem
  rcases hmem with ⟨rfl, rfl⟩ | ⟨rfl, rfl⟩ | ⟨rfl, rfl⟩ | ⟨rfl, rfl⟩ | ⟨rfl, rfl⟩ <;> rfl

/-- Of the memory keys only the one that retrieves does not write. -/
theorem eq_retrieve_of_not_writing {label : String} {key : MemoryKey} (hkey : ofLabel label = .memory key)
    (h : label ∉ writingLabels) : key = .retrieve := by
  have hmem := mem_of_lookup (ofLabel?_of_ofLabel hkey)
  simp only [List.mem_cons, List.not_mem_nil, or_false, Prod.mk.injEq] at hmem
  rcases hmem with ⟨rfl, rfl⟩ | ⟨rfl, rfl⟩ | ⟨rfl, rfl⟩ | ⟨rfl, rfl⟩ | ⟨rfl, rfl⟩
  · exact absurd (by decide) h
  · rfl
  · exact absurd (by decide) h
  · exact absurd (by decide) h
  · exact absurd (by decide) h

end Key

namespace Session

/-! ## What a key does -/

theorem toggleSign_eq (t : Session) : ∃ text, t.toggleSign = { t with expression := text } := by
  unfold toggleSign
  split
  · exact ⟨t.expression, rfl⟩
  · exact ⟨_, rfl⟩
  · exact ⟨_, rfl⟩

theorem applyPercent_eq (t : Session) :
    ∃ text failure, t.applyPercent = { t with expression := text, previewFailure := failure } := by
  unfold applyPercent
  split
  · exact ⟨t.expression, t.previewFailure, rfl⟩
  · split
    · split
      · exact ⟨_, t.previewFailure, rfl⟩
      · exact ⟨t.expression, t.previewFailure, rfl⟩
    · exact ⟨t.expression, _, rfl⟩

/-- A key clears, evaluates for good, edits the expression and previews it, or works on the memory. -/
theorem pressKey_cases (t : Session) (key : Key) :
    (key = .clear ∧ t.pressKey key = t.clear) ∨ (key = .equals ∧ t.pressKey key = t.commit) ∨
      ((∀ memoryKey, key ≠ .memory memoryKey) ∧
        ∃ text failure, t.pressKey key = { t with expression := text, previewFailure := failure }.preview) ∨
      ∃ memoryKey, key = .memory memoryKey ∧ t.pressKey key = t.pressMemory memoryKey := by
  cases key with
  | clear => exact Or.inl ⟨rfl, rfl⟩
  | equals => exact Or.inr (Or.inl ⟨rfl, rfl⟩)
  | memory memoryKey => exact Or.inr (Or.inr (Or.inr ⟨memoryKey, rfl, rfl⟩))
  | backspace => exact Or.inr (Or.inr (Or.inl ⟨nofun, _, t.previewFailure, rfl⟩))
  | sign =>
    obtain ⟨text, hedit⟩ := toggleSign_eq t
    exact Or.inr (Or.inr (Or.inl ⟨nofun, text, t.previewFailure, congrArg preview hedit⟩))
  | percent =>
    obtain ⟨text, failure, hedit⟩ := applyPercent_eq t
    exact Or.inr (Or.inr (Or.inl ⟨nofun, text, failure, congrArg preview hedit⟩))
  | typed label => exact Or.inr (Or.inr (Or.inl ⟨nofun, _, t.previewFailure, rfl⟩))

/-! ## What leaves the memory alone -/

theorem preview_memory (t : Session) : t.preview.memory = t.memory := by
  unfold preview
  split
  · rfl
  · split <;> rfl

theorem commit_memory (t : Session) : t.commit.memory = t.memory := by
  unfold commit
  split
  · rfl
  · split <;> rfl

theorem retrieveMemory_memory (t : Session) : t.retrieveMemory.memory = t.memory := by
  unfold retrieveMemory
  split
  · split <;> rfl
  · rfl

theorem press_memory_eq (t : Session) {label : String} (h : label ∉ Key.writingLabels) : (t.press label).memory = t.memory := by
  rw [press]
  rcases pressKey_cases t (.ofLabel label) with ⟨-, hpress⟩ | ⟨-, hpress⟩ | ⟨-, text, failure, hpress⟩ | ⟨key, hkey, hpress⟩
  · rw [hpress]
    rfl
  · rw [hpress, commit_memory]
  · rw [hpress, preview_memory]
  · obtain rfl := Key.eq_retrieve_of_not_writing hkey h
    rw [hpress]
    exact retrieveMemory_memory t

theorem pressAll_memory_eq (t : Session) {labels : List String} (h : ∀ label ∈ labels, label ∉ Key.writingLabels) :
    (t.pressAll labels).memory = t.memory := by
  induction labels using List.reverseRecOn with
  | nil => rfl
  | append_singleton labels label ih =>
    rw [pressAll_concat, press_memory_eq _ (h label (by simp))]
    exact ih fun other hother => h other (List.mem_append_left _ hother)

/-! ## The invariant -/

/-- The display is the text of the value, nothing fails while nothing is typed, and an empty register holds zero. -/
structure Consistent (t : Session) : Prop where
  display_eq : t.display = Display.format t.settings t.value
  failures : t.expression = [] → t.failure = none ∧ t.previewFailure = none
  register : t.memory.hasValue = false → t.memory.value = 0

theorem start_consistent (s : Settings) : (start s).Consistent where
  display_eq := (Display.format_zero s).symm
  failures _ := ⟨rfl, rfl⟩
  register _ := rfl

/-- A preview makes up for any expression and any failure. -/
theorem preview_consistent {t : Session} (hdisplay : t.display = Display.format t.settings t.value)
    (hregister : t.memory.hasValue = false → t.memory.value = 0) : t.preview.Consistent := by
  unfold preview
  split
  · exact ⟨hdisplay, fun _ => ⟨rfl, rfl⟩, hregister⟩
  · next hempty =>
    split
    · exact ⟨rfl, fun _ => ⟨rfl, rfl⟩, hregister⟩
    · exact ⟨hdisplay, fun hnil => absurd (List.isEmpty_iff.mpr hnil) hempty, hregister⟩

theorem Consistent.commit {t : Session} (h : t.Consistent) : t.commit.Consistent := by
  unfold Session.commit
  split
  · exact h
  · next hempty =>
    split
    · exact ⟨rfl, fun _ => ⟨rfl, rfl⟩, h.register⟩
    · exact ⟨h.display_eq, fun hnil => absurd (List.isEmpty_iff.mpr hnil) hempty, h.register⟩

theorem Consistent.retrieveMemory {t : Session} (h : t.Consistent) : t.retrieveMemory.Consistent := by
  unfold Session.retrieveMemory
  split
  · split
    · next hfinite => exact ⟨h.display_eq, fun hnil => absurd hnil (Expression.positional_ne_nil hfinite), h.register⟩
    · exact h
  · exact h

theorem Consistent.pressMemory {t : Session} (h : t.Consistent) (key : MemoryKey) : (t.pressMemory key).Consistent := by
  cases key with
  | clear => exact ⟨h.display_eq, h.failures, fun _ => rfl⟩
  | retrieve => exact h.retrieveMemory
  | add => exact ⟨h.display_eq, h.failures, nofun⟩
  | subtract => exact ⟨h.display_eq, h.failures, nofun⟩
  | store => exact ⟨h.display_eq, h.failures, nofun⟩

theorem Consistent.press {t : Session} (h : t.Consistent) (label : String) : (t.press label).Consistent := by
  rw [Session.press]
  rcases pressKey_cases t (.ofLabel label) with ⟨-, hpress⟩ | ⟨-, hpress⟩ | ⟨-, text, failure, hpress⟩ | ⟨key, -, hpress⟩
  · rw [hpress]
    exact ⟨(Display.format_zero t.settings).symm, fun _ => ⟨rfl, rfl⟩, h.register⟩
  · rw [hpress]
    exact h.commit
  · rw [hpress]
    exact preview_consistent h.display_eq h.register
  · rw [hpress]
    exact h.pressMemory key

theorem start_pressAll_consistent (s : Settings) (labels : List String) : ((start s).pressAll labels).Consistent := by
  induction labels using List.reverseRecOn with
  | nil => exact start_consistent s
  | append_singleton labels label ih =>
    rw [pressAll_concat]
    exact ih.press label

/-! ## Values that are not finite -/

theorem snapshot_value_eq_none_iff (t : Session) : t.snapshot.value = none ↔ t.value.isFinite = false := by
  change (if t.value.isFinite then some t.value else none) = none ↔ _
  cases t.value.isFinite <;> simp

/-! ## Calls -/

inductive Call where
  | press (label : String)
  | pressAll (labels : List String)
  | commit
  | clear
  | memoryKey (label : String)
  deriving DecidableEq, Repr

def perform (t : Session) : Call → Except String Session
  | .press label => .ok (t.press label)
  | .pressAll labels => .ok (t.pressAll labels)
  | .commit => .ok t.commit
  | .clear => .ok t.clear
  | .memoryKey label => t.pressMemoryLabel label

/-- The session behind a call; a call that is refused leaves it as it was. -/
def after (t : Session) (call : Call) : Session :=
  match t.perform call with
  | .ok t' => t'
  | .error _ => t

def afterAll (t : Session) (calls : List Call) : Session :=
  calls.foldl after t

/-- The keys that do the same as a call. -/
def Call.labels : Call → List String
  | .press label => [label]
  | .pressAll labels => labels
  | .commit => ["="]
  | .clear => ["AC"]
  | .memoryKey label => if label ∈ Key.memoryLabels then [label] else []

theorem after_eq_pressAll (t : Session) (call : Call) : t.after call = t.pressAll call.labels := by
  cases call with
  | press label => rfl
  | pressAll labels => rfl
  | commit => rfl
  | clear => rfl
  | memoryKey label =>
    rw [after, perform, pressMemoryLabel, Call.labels]
    cases hkey : MemoryKey.ofLabel? label with
    | none =>
      rw [if_neg ((Key.ofLabel?_eq_none_iff label).mp hkey)]
      rfl
    | some key =>
      have hmem : label ∈ Key.memoryLabels := by
        by_contra hmem
        rw [(Key.ofLabel?_eq_none_iff label).mpr hmem] at hkey
        contradiction
      rw [if_pos hmem]
      exact (press_memory (Key.ofLabel_of_ofLabel? hkey)).symm

theorem pressAll_append (t : Session) (front back : List String) :
    t.pressAll (front ++ back) = (t.pressAll front).pressAll back :=
  List.foldl_append

theorem afterAll_eq_pressAll (t : Session) (calls : List Call) : t.afterAll calls = t.pressAll (calls.flatMap Call.labels) := by
  induction calls generalizing t with
  | nil => rfl
  | cons call calls ih =>
    rw [List.flatMap_cons, pressAll_append, ← after_eq_pressAll]
    exact ih (t.after call)

theorem perform_eq_error_iff (t : Session) (call : Call) (message : String) : t.perform call = .error message ↔
    ∃ label, call = .memoryKey label ∧ label ∉ Key.memoryLabels ∧ message = "Unknown memory key: " ++ label := by
  cases call with
  | memoryKey label =>
    simp only [perform, pressMemoryLabel, Call.memoryKey.injEq, exists_eq_left', ← Key.ofLabel?_eq_none_iff]
    cases hkey : MemoryKey.ofLabel? label with
    | none => simp [eq_comm]
    | some key => simp
  | _ => simp [perform]

/--
In every session that calls lead to the display is the text of the value, nothing fails while nothing is typed, and an
empty register holds zero. There is no value in the view and there are no bases exactly when the display shows an error or
an infinity. From there a call changes the memory only if it presses one of the keys that write to it, and a call that is
refused, which is one with an unknown memory key, changes nothing.
-/
theorem afterAll_consistent (s : Settings) (calls : List Call) :
    ((start s).afterAll calls).settings = s ∧ ((start s).afterAll calls).Consistent ∧
      (((start s).afterAll calls).snapshot.value = none ↔ ((start s).afterAll calls).display ∈ Display.specialTexts) ∧
      (((start s).afterAll calls).bases? = none ↔ ((start s).afterAll calls).display ∈ Display.specialTexts) ∧
      ∀ call, ((∀ label ∈ call.labels, label ∉ Key.writingLabels) →
          (((start s).afterAll calls).after call).memory = ((start s).afterAll calls).memory) ∧
        ∀ message, (((start s).afterAll calls).perform call = .error message ↔
            ∃ label, call = .memoryKey label ∧ label ∉ Key.memoryLabels ∧ message = "Unknown memory key: " ++ label) ∧
          (((start s).afterAll calls).perform call = .error message →
            ((start s).afterAll calls).after call = (start s).afterAll calls) := by
  rw [afterAll_eq_pressAll]
  generalize calls.flatMap Call.labels = labels
  have hconsistent := start_pressAll_consistent s labels
  have hspecial : ((start s).pressAll labels).display ∈ Display.specialTexts ↔
      ((start s).pressAll labels).value.isFinite = false := by
    rw [hconsistent.display_eq]
    exact Display.format_mem_special_iff _ _
  refine ⟨pressAll_settings _ _, hconsistent, ?_, ?_, fun call => ⟨fun hlabels => ?_, fun message =>
    ⟨perform_eq_error_iff _ _ _, fun hrefused => ?_⟩⟩⟩
  · rw [snapshot_value_eq_none_iff, hspecial]
  · rw [bases?, Radix.bases?_eq_none_iff, hspecial]
  · rw [after_eq_pressAll]
    exact pressAll_memory_eq _ hlabels
  · rw [after, hrefused]

end Session

end Reckoner
