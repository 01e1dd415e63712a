import Reckoner.Proofs.Expression.Evaluate
import Reckoner.Proofs.Expression.Position
import Reckoner.Proofs.Text.Rewrite

/-!
# The glyphs as rules that keep apart

No glyph begins inside another one or inside what takes its place, so replacing them is one pass in which their order does not
matter. It leaves no glyph, does nothing the second time, and commutes with trimming: the text that is parsed, and in which
failures have their places, is the normal form of the trimmed text.
-/

namespace Reckoner.Expression

set_option autoImplicit false

variable {text : List Char}

/-! ## One pass -/

theorem glyphs_separate : Text.Separate glyphs where
  nonempty := by simp [glyphs]
  nested := by simp [glyphs]
  begun := by simp [glyphs]
  completed := by simp [glyphs]

theorem glyph_ne_nil : ∀ glyph ∈ glyphs, glyph.1 ≠ [] := fun glyph hglyph => (glyphs_separate.nonempty glyph hglyph).1

theorem glyphs_nodup : glyphs.Nodup := by
  simp [glyphs]

theorem normalize_eq_together (text : List Char) : normalize text = Text.replaceTogether glyphs text :=
  glyphs_separate.inTurn_eq_together glyphs_nodup text

theorem normalize_glyph_append {glyph : Text.Rule} (h : glyph ∈ glyphs) (text : List Char) :
    normalize (glyph.1 ++ text) = glyph.2 ++ normalize text := by
  simp only [normalize_eq_together]
  exact Text.replaceTogether_rule (glyph_ne_nil glyph h) (glyphs_separate.standing?_append h text)

theorem normalize_plain_append {front : List Char} (h : ∀ glyph ∈ glyphs, ∀ c ∈ glyph.1.head?, c ∉ front) (text : List Char) :
    normalize (front ++ text) = front ++ normalize text := by
  simp only [normalize_eq_together]
  exact Text.replaceTogether_append_of_clear glyph_ne_nil h text

theorem replaceInTurn_perm {order : List Text.Rule} (h : order.Perm glyphs) (text : List Char) :
    Text.replaceInTurn order text = normalize text := by
  have hseparate : Text.Separate order := glyphs_separate.of_subset h.subset
  rw [hseparate.inTurn_eq_together (h.nodup_iff.mpr glyphs_nodup), glyphs_separate.together_perm h, normalize_eq_together]

theorem glyph_not_infix {glyph : Text.Rule} (h : glyph ∈ glyphs) (text : List Char) : ¬ glyph.1 <:+: normalize text := by
  rw [normalize_eq_together]
  exact glyphs_separate.not_infix h text

theorem normalize_normalize (text : List Char) : normalize (normalize text) = normalize text := by
  simp only [normalize_eq_together, glyphs_separate.idempotent]

theorem normalize_eq_nil_iff : normalize text = [] ↔ text = [] := by
  rw [normalize_eq_together]
  refine ⟨Text.replaceTogether_eq_nil glyphs_separate.nonempty, ?_⟩
  rintro rfl
  exact Text.replaceTogether_nil

example : normalize ['√', '√', '(', 'π', ')', '−'] = ['√', 's', 'q', 'r', 't', '(', 'p', 'i', ')', '-'] := by
  decide +kernel

/-! ## Trimming -/

/-- Glyphs and what takes their place hold no blanks, so normalizing commutes with trimming. -/
theorem normalize_trim (text : List Char) : normalize (Text.trim text) = Text.trim (normalize text) := by
  have hvisible : ∀ glyph ∈ glyphs, ∀ c ∈ glyph.2, Text.isBlank c = false := by
    simp [glyphs, Text.isBlank, Text.isWhiteSpace]
  have hends : Text.Trimmed Text.isBlank (normalize (Text.trim text)) := by
    rw [normalize_eq_together]
    exact (Text.trimmed_trimBy Text.isBlank text).replaceTogether glyphs_separate.nonempty hvisible
  obtain ⟨front, back, hsplit, hfront, hback⟩ := Text.trimBy_split Text.isBlank text
  change text = front ++ (Text.trim text ++ back) at hsplit
  generalize Text.trim text = core at hsplit hends ⊢
  rw [hsplit, normalize_surrounded hfront hback, Text.trim, Text.trimBy_append hfront hback]
  exact hends.trimBy_eq.symm

theorem isBlankText_iff : isBlankText text = true ↔ Text.trim text = [] := by
  refine ⟨fun h => Text.trimBy_eq_nil (List.all_eq_true.mp h), fun h => List.all_eq_true.mpr ?_⟩
  obtain ⟨front, back, hsplit, hfront, hback⟩ := Text.trimBy_split Text.isBlank text
  change text = front ++ (Text.trim text ++ back) at hsplit
  rw [h] at hsplit
  rw [hsplit]
  exact List.forall_mem_append.mpr ⟨hfront, hback⟩

theorem isBlankText_normalize (text : List Char) : isBlankText (normalize text) = isBlankText text := by
  rw [Bool.eq_iff_iff, isBlankText_iff, isBlankText_iff, ← normalize_trim, normalize_eq_nil_iff]

/-! ## Evaluating -/

theorem evaluateChars_normalize (s : Settings) (text : List Char) : evaluateChars s (normalize text) = evaluateChars s text := by
  rw [evaluateChars, isBlankText_normalize, normalize_normalize, evaluateChars]

/-- A failure with its place in a text, as far as it has one. -/
structure Failure.Located (f : Failure) (s : Settings) (text : List Char) : Prop where
  fault : ∀ fault position, f = .malformed fault position → position ≤ text.length ∧ fault.Trustworthy s text position
  division : ∀ position, f = .divisionByZero position → text[position]? = some '/'

/-- The places of failures are those in the normal form of the trimmed text. -/
theorem evaluateChars_located {s : Settings} {f : Failure} (h : evaluateChars s text = .error f) :
    f.Located s (normalize (Text.trim text)) := by
  rw [normalize_trim]
  unfold evaluateChars at h
  split at h
  · contradiction
  · split at h
    · contradiction
    · next halt hparse =>
      obtain rfl := Except.error.inj h
      refine ⟨fun fault position hfault => ?_, fun position hdivision => parse_divisionByZero hparse hdivision⟩
      obtain ⟨hle, -, htrustworthy⟩ := parse_fault hparse hfault
      exact ⟨hle, htrustworthy⟩

/-- Normalizing a text is a clean pass in front of everything else. -/
structure CleanlyNormalized (text : List Char) : Prop where
  plain : (∀ c ∈ ['×', '÷', '−', 'π'], c ∉ normalize text) ∧ ¬ ['√', '('] <:+: normalize text
  idempotent : normalize (normalize text) = normalize text
  together : normalize text = Text.replaceTogether glyphs text
  any_order : ∀ order, order.Perm glyphs → Text.replaceInTurn order text = normalize text
  trimmed : normalize (Text.trim text) = Text.trim (normalize text)
  located : ∀ s f, evaluateChars s text = .error f → f.Located s (normalize (Text.trim text))
  surrounded : ∀ s front back, (∀ c ∈ front, Text.isBlank c = true) → (∀ c ∈ back, Text.isBlank c = true) →
    evaluateChars s (front ++ (text ++ back)) = evaluateChars s (normalize text)

theorem cleanlyNormalized (text : List Char) : CleanlyNormalized text where
  plain := by
    have hsingle : ∀ c replacement, ([c], replacement) ∈ glyphs → c ∉ normalize text := by
      intro c replacement hglyph hmem
      obtain ⟨front, back, hsplit⟩ := List.append_of_mem hmem
      exact glyph_not_infix hglyph text ⟨front, back, by rw [hsplit, List.append_assoc, List.singleton_append]⟩
    have hroot : (['√', '('], ['s', 'q', 'r', 't', '(']) ∈ glyphs := by simp [glyphs]
    refine ⟨?_, glyph_not_infix hroot text⟩
    simp only [List.mem_cons, List.not_mem_nil, or_false]
    rintro c (rfl | rfl | rfl | rfl)
    · exact hsingle _ ['*'] (by simp [glyphs])
    · exact hsingle _ ['/'] (by simp [glyphs])
    · exact hsingle _ ['-'] (by simp [glyphs])
    · exact hsingle _ ['p', 'i'] (by simp [glyphs])
  idempotent := normalize_normalize text
  together := normalize_eq_together text
  any_order _ horder := replaceInTurn_perm horder text
  trimmed := normalize_trim text
  located _ _ := evaluateChars_located
  surrounded s _ _ hfront hback := (evaluateChars_surrounded s hfront hback text).trans (evaluateChars_normalize s text).symm

end Reckoner.Expression
