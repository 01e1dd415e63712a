import Reckoner.Expression.Descent
import Reckoner.Text.Replace

/-!
# From typed text to a value

The display glyphs of a typed text are replaced by characters of the grammar, blanks around it are removed,
and what is left is parsed and computed in one pass. A blank text has the value zero.
-/

namespace Reckoner.Expression

set_option autoImplicit false

/-- The glyphs and what takes their place; the root sign only where it opens a call. -/
def glyphs : List (List Char × List Char) :=
  [(['×'], ['*']), (['÷'], ['/']), (['−'], ['-']),
    (['√', '('], ['s', 'q', 'r', 't', '(']), (['π'], ['p', 'i'])]

/-- Replaces the glyphs of a text, one kind after the other. -/
def normalize (text : List Char) : List Char :=
  glyphs.foldl (fun t glyph => Text.replaceAll glyph.1 glyph.2 t) text

def isBlankText (text : List Char) : Bool :=
  text.all Text.isBlank

def evaluateChars (s : Settings) (text : List Char) : Except Failure Float :=
  if isBlankText text then .ok 0
  else
    match parse (arithmetic s) (Text.trim (normalize text)) with
    | .ok (value, _) => .ok value
    | .error halt => .error halt.failure

def evaluate (s : Settings) (text : String) : Except Failure Float :=
  evaluateChars s text.toList

def normalizeText (text : String) : String :=
  String.ofList (normalize text.toList)

end Reckoner.Expression
