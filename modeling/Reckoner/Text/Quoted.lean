import Reckoner.Text.Blank

/-!
# Texts quoted in messages

A quoted text stands in single quotes, or in double quotes when it holds a single but no double one.
Backslashes, the quote itself and characters without a glyph are written as escapes.
-/

namespace Reckoner.Text

set_option autoImplicit false

/-- Whether a character has no glyph: controls, blanks other than the space and format characters. -/
def isGlyphless (c : Char) : Bool :=
  let n : Nat := c.toNat
  n < 0x20 || (0x7F ≤ n && n ≤ 0xA0) || n == 0xAD || (isWhiteSpace c && c != ' ')
    || (0x200B ≤ n && n ≤ 0x200F) || (0x202A ≤ n && n ≤ 0x202E) || (0x2060 ≤ n && n ≤ 0x206F)
    || n == 0xFEFF

/-- The lowest `count` hexadecimal digits of a number. -/
def hexDigits : Nat → Nat → List Char
  | 0, _ => []
  | count + 1, n => hexDigits count (n / 16) ++ [Nat.digitChar (n % 16)]

def escapeIn (quote c : Char) : List Char :=
  if c == quote || c == '\\' then ['\\', c]
  else if c == '\n' then ['\\', 'n']
  else if c == '\r' then ['\\', 'r']
  else if c == '\t' then ['\\', 't']
  else if isGlyphless c then
    if c.toNat < 0x100 then '\\' :: 'x' :: hexDigits 2 c.toNat
    else '\\' :: 'u' :: hexDigits 4 c.toNat
  else [c]

def quoteFor (text : List Char) : Char :=
  if text.contains '\'' && !text.contains '"' then '"' else '\''

def quoted (text : List Char) : List Char :=
  quoteFor text :: text.flatMap (escapeIn (quoteFor text)) ++ [quoteFor text]

end Reckoner.Text
