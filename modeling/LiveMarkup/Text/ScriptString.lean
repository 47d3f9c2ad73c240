import LiveMarkup.Text.Utf8

/-!
# String literals of scripts

The generated script and the expression language share their string literals: double quotes, a
backslash for the special characters, four hexadecimal digits for control characters. The characters
that could end a script element, `<`, `>` and `&`, and the two line separators are always written in
hexadecimal, so a literal means the same wherever it is put.

An octet that is part of no character becomes the replacement character. Encoders differ in how they
write it there, as it is or in hexadecimal (`LiveMarkup.StrayForm`); the library writes it as it is.
-/

namespace LiveMarkup

namespace ScriptString

/-- A character as four hexadecimal digits. -/
def coded (c : Char) : Bytes := utf8 "\\u" ++ hexDigits 4 c.toNat

/-- How a character is written in a literal. -/
def char (c : Char) : Bytes :=
  if c = '"' ∨ c = '\\' then [octet '\\', octet c]
  else if c = '\n' then utf8 "\\n"
  else if c = '\r' then utf8 "\\r"
  else if c = '\t' then utf8 "\\t"
  else if c.toNat = 0x08 then utf8 "\\b"
  else if c.toNat = 0x0c then utf8 "\\f"
  else if c.toNat < 0x20 ∨ c = '<' ∨ c = '>' ∨ c = '&' ∨ c.toNat = 0x2028 ∨ c.toNat = 0x2029 then
    coded c
  else Utf8.encode c

end ScriptString

/-- How the replacement character is written for a stray octet. -/
inductive StrayForm
  /-- As it is. -/
  | plain
  /-- In hexadecimal. -/
  | coded
  deriving DecidableEq, Repr

namespace ScriptString

/-- What is written for a stray octet. -/
def stray : StrayForm → Bytes
  | .plain => char Utf8.replacement
  | .coded => coded Utf8.replacement

/-- How what was read as one character is written in a literal. -/
def char? (form : StrayForm) : Option Char → Bytes
  | some c => char c
  | none => stray form

end ScriptString

/-- The string literal for a text; stray octets become the replacement character. -/
def scriptString (s : Bytes) (form : StrayForm := .plain) : Bytes :=
  octet '"' :: ((Utf8.chars s).flatMap (ScriptString.char? form) ++ [octet '"'])

end LiveMarkup
