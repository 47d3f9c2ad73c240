import LiveMarkup.Text.Printable
import LiveMarkup.Text.Utf8

/-!
# Texts inside messages

A message that repeats a piece of its input puts it between double quotes, with every character that
is not printable written as an escape sequence, so that one message stays on one line.
-/

namespace LiveMarkup

namespace Display

/-- The letter that stands after a backslash for a control character. -/
def controlLetter? (c : Char) : Option Char :=
  match c.toNat with
  | 0x07 => some 'a'
  | 0x08 => some 'b'
  | 0x09 => some 't'
  | 0x0a => some 'n'
  | 0x0b => some 'v'
  | 0x0c => some 'f'
  | 0x0d => some 'r'
  | _ => none

/-- How a character is shown between double quotes. -/
def char (c : Char) : Bytes :=
  if c = '"' ∨ c = '\\' then [octet '\\', octet c]
  else if isPrintable c then Utf8.encode c
  else match controlLetter? c with
    | some l => [octet '\\', octet l]
    | none =>
      if c.toNat < 0x80 then utf8 "\\x" ++ hexDigits 2 c.toNat
      else if c.toNat < 0x10000 then utf8 "\\u" ++ hexDigits 4 c.toNat
      else utf8 "\\U" ++ hexDigits 8 c.toNat

/-- The body of a shown text: its characters one by one, a stray octet in hexadecimal. -/
def body (s : Bytes) : Bytes :=
  match _h : Utf8.uncons? s with
  | none => []
  | some (some c, r) => char c ++ body r
  | some (none, r) => utf8 "\\x" ++ hexDigits 2 (s.headD 0).toNat ++ body r
termination_by s.length
decreasing_by all_goals exact Utf8.length_of_uncons? _h

end Display

/-- A text as messages show it, between double quotes. -/
def displayed (s : Bytes) : Bytes := octet '"' :: (Display.body s ++ [octet '"'])

end LiveMarkup
