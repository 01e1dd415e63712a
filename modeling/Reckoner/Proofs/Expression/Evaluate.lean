import Reckoner.Display
import Reckoner.Proofs.Curve

/-!
# What an evaluation depends on

Blanks around an expression do not count, nor does white space around the template of a curve. Of the settings an
evaluation only looks at whether angles are in degrees, and the text of a number only at the number of digits shown and
at the choice of separators.
-/

namespace Reckoner

set_option autoImplicit false

/-! ## Blanks around an expression -/

namespace Expression

section
variable {front back : List Char}

theorem glyph_visible : ∀ glyph ∈ glyphs, glyph.1 ≠ [] ∧ ∀ c ∈ glyph.1, Text.isBlank c = false := by
  simp [glyphs, Text.isBlank, Text.isWhiteSpace]

theorem replaceAll_surrounded {glyph : List Char × List Char} (hglyph : glyph ∈ glyphs)
    (hfront : ∀ c ∈ front, Text.isBlank c = true) (hback : ∀ c ∈ back, Text.isBlank c = true) (text : List Char) :
    Text.replaceAll glyph.1 glyph.2 (front ++ (text ++ back)) = front ++ (Text.replaceAll glyph.1 glyph.2 text ++ back) := by
  obtain ⟨hne, hvisible⟩ := glyph_visible glyph hglyph
  have hoff : ∀ {blank : List Char}, (∀ c ∈ blank, Text.isBlank c = true) → ∀ c ∈ glyph.1, c ∉ blank := by
    intro blank hblank c hc hmem
    exact absurd ((hvisible c hc).symm.trans (hblank c hmem)) Bool.false_ne_true
  obtain ⟨first, more, hpattern⟩ := List.exists_cons_of_ne_nil hne
  rw [← Text.replaceAll_append_of_disjoint hne (hoff hback)]
  rw [hpattern] at hoff ⊢
  exact Text.replaceAll_append_of_not_mem (hoff hfront first List.mem_cons_self) more glyph.2 (text ++ back)

/-- The glyphs are replaced inside of the blanks around a text. -/
theorem normalize_surrounded (hfront : ∀ c ∈ front, Text.isBlank c = true) (hback : ∀ c ∈ back, Text.isBlank c = true)
    (text : List Char) : normalize (front ++ (text ++ back)) = front ++ (normalize text ++ back) := by
  have hfold : ∀ (some : List (List Char × List Char)) (text : List Char), some ⊆ glyphs →
      some.foldl (fun t glyph => Text.replaceAll glyph.1 glyph.2 t) (front ++ (text ++ back)) =
        front ++ (some.foldl (fun t glyph => Text.replaceAll glyph.1 glyph.2 t) text ++ back) := by
    intro some
    induction some with
    | nil => exact fun _ _ => rfl
    | cons glyph some ih =>
      intro text hsome
      obtain ⟨hglyph, hrest⟩ := List.cons_subset.mp hsome
      rw [List.foldl_cons, List.foldl_cons, replaceAll_surrounded hglyph hfront hback]
      exact ih _ hrest
  exact hfold glyphs text (List.Subset.refl _)

theorem isBlankText_surrounded (hfront : ∀ c ∈ front, Text.isBlank c = true) (hback : ∀ c ∈ back, Text.isBlank c = true)
    (text : List Char) : isBlankText (front ++ (text ++ back)) = isBlankText text := by
  rw [isBlankText, List.all_append, List.all_append, List.all_eq_true.mpr hfront, List.all_eq_true.mpr hback, Bool.true_and,
    Bool.and_true]
  rfl

theorem evaluateChars_surrounded (s : Settings) (hfront : ∀ c ∈ front, Text.isBlank c = true)
    (hback : ∀ c ∈ back, Text.isBlank c = true) (text : List Char) :
    evaluateChars s (front ++ (text ++ back)) = evaluateChars s text := by
  have htrim : Text.trim (front ++ (normalize text ++ back)) = Text.trim (normalize text) := Text.trimBy_append hfront hback _
  rw [evaluateChars, evaluateChars, isBlankText_surrounded hfront hback, normalize_surrounded hfront hback, htrim]

end

theorem evaluateChars_trimBy (s : Settings) (text : List Char) :
    evaluateChars s (Text.trimBy Text.isWhiteSpace text) = evaluateChars s text := by
  obtain ⟨front, back, hsplit, hfront, hback⟩ := Text.trimBy_split Text.isWhiteSpace text
  generalize Text.trimBy Text.isWhiteSpace text = core at hsplit
  subst hsplit
  exact (evaluateChars_surrounded s (fun c hc => Text.isBlank_of_isWhiteSpace c (hfront c hc))
    (fun c hc => Text.isBlank_of_isWhiteSpace c (hback c hc)) core).symm

theorem evaluate_trimBy (s : Settings) (text : String) :
    evaluate s (String.ofList (Text.trimBy Text.isWhiteSpace text.toList)) = evaluate s text := by
  rw [evaluate, String.toList_ofList, evaluateChars_trimBy, evaluate]

/-! ## Settings -/

section
variable {s t : Settings}

theorem Function.apply_congr (h : s.usesDegrees = t.usesDegrees) : Function.apply s = Function.apply t := by
  have hto : toRadians s = toRadians t := by
    funext x
    rw [toRadians, h, toRadians]
  have hfrom : fromRadians s = fromRadians t := by
    funext x
    rw [fromRadians, h, fromRadians]
  funext f x
  cases f <;> simp only [apply, hto, hfrom]

theorem arithmetic_congr (h : s.usesDegrees = t.usesDegrees) : arithmetic s = arithmetic t := by
  simp only [arithmetic, Function.apply_congr h]

theorem evaluateChars_congr (h : s.usesDegrees = t.usesDegrees) (text : List Char) :
    evaluateChars s text = evaluateChars t text := by
  simp only [evaluateChars, arithmetic_congr h]

theorem evaluate_congr (h : s.usesDegrees = t.usesDegrees) (text : String) : evaluate s text = evaluate t text :=
  evaluateChars_congr h text.toList

end

end Expression

theorem Display.format_congr {s t : Settings} (hdigits : s.significantDigits = t.significantDigits)
    (hseparator : s.thousandsSeparator = t.thousandsSeparator) (x : Float) : format s x = format t x := by
  simp only [format, formatChars, hdigits, hseparator]

/-! ## Curves -/

namespace Curve

theorem substitute_trimBy (template : List Char) (x : Float) :
    substitute (Text.trimBy Text.isWhiteSpace template) x = Text.trimBy Text.isWhiteSpace (substitute template x) := by
  have hhead : ∃ c rest, literal x = c :: rest ∧ Text.isWhiteSpace c = false := ⟨'(', _, rfl, by decide⟩
  have hlast : ∃ c rest, (literal x).reverse = c :: rest ∧ Text.isWhiteSpace c = false :=
    ⟨')', ('(' :: Double.positional x).reverse, by rw [literal, List.reverse_append]; rfl, by decide⟩
  exact (Text.trimBy_plugIn (by decide) hhead hlast template).symm

theorem samplePoint_trimBy (s : Settings) (template : List Char) (x : Float) :
    samplePoint s (Text.trimBy Text.isWhiteSpace template) x = samplePoint s template x := by
  rw [samplePoint, substitute_trimBy, Expression.evaluateChars_trimBy, samplePoint]

theorem samplePoint_congr {s t : Settings} (h : s.usesDegrees = t.usesDegrees) (template : List Char) (x : Float) :
    samplePoint s template x = samplePoint t template x := by
  rw [samplePoint, Expression.evaluateChars_congr h, samplePoint]

/-- The points of a requested curve, or why it is refused. -/
def outcome (s : Settings) (template : List Char) (xMin xMax : Float) (count : Int) :
    Except CurveFault (List CurvePoint) :=
  (request s template xMin xMax count).map points

section
variable {s t : Settings} {template other : List Char}

/-- A curve is known from its samples. -/
theorem outcome_eq_of_samples (h : ∀ x, samplePoint s template x = samplePoint t other x) (xMin xMax : Float) (count : Int) :
    outcome s template xMin xMax count = outcome t other xMin xMax count := by
  have hpoints : ∀ n, points ⟨template, xMin, xMax, n, s⟩ = points ⟨other, xMin, xMax, n, t⟩ := fun n =>
    List.map_congr_left fun x _ => h x
  unfold outcome request
  cases checkBounds xMin xMax with
  | error fault => rfl
  | ok _ =>
    simp only [bind, Except.bind]
    split
    · rfl
    · exact congrArg Except.ok (hpoints _)

theorem outcome_congr (h : s.usesDegrees = t.usesDegrees) (template : List Char) (xMin xMax : Float) (count : Int) :
    outcome s template xMin xMax count = outcome t template xMin xMax count :=
  outcome_eq_of_samples (samplePoint_congr h template) xMin xMax count

theorem outcome_trimBy (s : Settings) (template : List Char) (xMin xMax : Float) (count : Int) :
    outcome s (Text.trimBy Text.isWhiteSpace template) xMin xMax count = outcome s template xMin xMax count :=
  outcome_eq_of_samples (samplePoint_trimBy s template) xMin xMax count

end

end Curve

end Reckoner
