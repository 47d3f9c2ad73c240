import LiveMarkup.Text.Utf8

/-!
# Escape sequences

A backslash and what may follow it in a quoted text: a letter for a control character, two, four or
eight hexadecimal digits, or three octal digits. The readers of quoted texts share these pieces and
differ only in which of them they admit.
-/

namespace LiveMarkup

namespace Escape

/-- The control character that a letter after a backslash stands for. -/
def control? (b : UInt8) : Option UInt8 :=
  if b = octet 'a' then some 0x07
  else if b = octet 'b' then some 0x08
  else if b = octet 't' then some 0x09
  else if b = octet 'n' then some 0x0a
  else if b = octet 'v' then some 0x0b
  else if b = octet 'f' then some 0x0c
  else if b = octet 'r' then some 0x0d
  else none

/-- How many hexadecimal digits follow the letters `x`, `u` and `U`. -/
def hexWidth? (b : UInt8) : Option Nat :=
  if b = octet 'x' then some 2
  else if b = octet 'u' then some 4
  else if b = octet 'U' then some 8
  else none

/-- The value of exactly `n` hexadecimal digits and what follows them; `v` is the value read so
far. -/
def hexRun? : (n : Nat) → (v : Nat) → Bytes → Option (Nat × Bytes)
  | 0, v, s => some (v, s)
  | _ + 1, _, [] => none
  | n + 1, v, b :: s =>
    match hexValue? b with
    | some d => hexRun? n (v * 16 + d) s
    | none => none

/-- The value of an octal digit. -/
def octalValue? (b : UInt8) : Option Nat :=
  if octet '0' ≤ b && b ≤ octet '7' then some (b.toNat - 0x30) else none

/-- The value of exactly `n` octal digits and what follows them; `v` is the value read so far. -/
def octalRun? : (n : Nat) → (v : Nat) → Bytes → Option (Nat × Bytes)
  | 0, v, s => some (v, s)
  | _ + 1, _, [] => none
  | n + 1, v, b :: s =>
    match octalValue? b with
    | some d => octalRun? n (v * 8 + d) s
    | none => none

/-- Whether a number is the code point of a character. -/
def isScalar (n : Nat) : Bool := n < 0xd800 || (0xdfff < n && n < 0x110000)

theorem length_of_hexRun? {n v w : Nat} {s r : Bytes} (h : hexRun? n v s = some (w, r)) :
    r.length ≤ s.length := by
  induction n generalizing v s with
  | zero => simp only [hexRun?, Option.some.injEq, Prod.mk.injEq] at h; simp [h.2]
  | succ n ih =>
    cases s with
    | nil => simp [hexRun?] at h
    | cons b s =>
      rw [hexRun?] at h
      split at h
      · have := ih h
        simp only [List.length_cons]
        omega
      · simp at h

theorem length_of_octalRun? {n v w : Nat} {s r : Bytes} (h : octalRun? n v s = some (w, r)) :
    r.length ≤ s.length := by
  induction n generalizing v s with
  | zero => simp only [octalRun?, Option.some.injEq, Prod.mk.injEq] at h; simp [h.2]
  | succ n ih =>
    cases s with
    | nil => simp [octalRun?] at h
    | cons b s =>
      rw [octalRun?] at h
      split at h
      · have := ih h
        simp only [List.length_cons]
        omega
      · simp at h

end Escape

end LiveMarkup
