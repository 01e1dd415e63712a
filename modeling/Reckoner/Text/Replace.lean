/-!
# Replacing a pattern in a text

`replaceAll pattern replacement` replaces the occurrences of a non-empty pattern from left to right;
after an occurrence the search goes on behind it, so occurrences never overlap.
-/

namespace Reckoner.Text

set_option autoImplicit false

/-- Replaces every occurrence of the pattern, from left to right and without overlap. -/
def replaceAll (pattern replacement : List Char) : List Char → List Char
  | [] => []
  | c :: rest =>
    if pattern.isPrefixOf (c :: rest) then
      replacement ++ replaceAll pattern replacement (rest.drop (pattern.length - 1))
    else
      c :: replaceAll pattern replacement rest
termination_by text => text.length
decreasing_by
  · simp only [List.length_drop, List.length_cons]
    omega
  · simp only [List.length_cons]
    omega

/-! ## Small facts -/

theorem replaceAll_nil (pattern replacement : List Char) :
    replaceAll pattern replacement [] = [] := by
  rw [replaceAll]

end Reckoner.Text
