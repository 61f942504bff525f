/-
Texts in quotes, as messages show names.

A text stands in single quotes, or in double quotes if it holds a single quote and no double one. The quote in use, the
backslash and every unprintable character are escaped.
-/
import SceneGrammar.Text.Printable

namespace SceneGrammar.Text

/-- `n` in hexadecimal, filled up to `width` digits -/
def hexDigits (width n : Nat) : String :=
  let digits := Nat.toDigits 16 n
  String.ofList (List.replicate (width - digits.length) '0' ++ digits)

/-- one character between quotes `q` -/
def escaped (q c : Char) : String :=
  if c = q ∨ c = '\\' then "\\" ++ String.singleton c
  else if c = '\n' then "\\n"
  else if c = '\r' then "\\r"
  else if c = '\t' then "\\t"
  else if isPrintable c then String.singleton c
  else if c.toNat < 0x100 then "\\x" ++ hexDigits 2 c.toNat
  else if c.toNat < 0x10000 then "\\u" ++ hexDigits 4 c.toNat
  else "\\U" ++ hexDigits 8 c.toNat

/-- the quote that a text is put in -/
def quoteFor (s : String) : Char :=
  if s.toList.contains '\'' && !s.toList.contains '"' then '"' else '\''

/-- a text in quotes -/
def quoted (s : String) : String :=
  let q := quoteFor s
  String.singleton q ++ String.join (s.toList.map (escaped q)) ++ String.singleton q

/-- a list of texts in quotes -/
def quotedList (l : List String) : String := "[" ++ ", ".intercalate (l.map quoted) ++ "]"

end SceneGrammar.Text
