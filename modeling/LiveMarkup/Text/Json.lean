import LiveMarkup.Text.Escape

/-!
# JSON

Values of JSON and their reading from the start of a text. What follows the value does not count.

`LiveMarkup.Json.read?` is the value that a text starts with. Strings are sequences of characters:
stray octets and lone surrogates become the replacement character.
-/

namespace LiveMarkup

/-- A value of JSON. Numbers are kept as they are written. -/
inductive Json
  | null
  | bool (value : Bool)
  | number (text : Bytes)
  | string (value : Bytes)
  | array (items : List Json)
  | object (members : List (Bytes × Json))

namespace Json

/-- What was read from the start of a text shorter than `n`: a value and the text left. -/
structure Prefixed (α : Type) (n : Nat) where
  value : α
  rest : Bytes
  shorter : rest.length < n

/-- Whether an octet separates the parts of a value. -/
def isBlank (b : UInt8) : Bool :=
  b == octet ' ' || b == octet '\t' || b == octet '\n' || b == octet '\r'

/-- The text without blanks in front. -/
def skip (s : Bytes) : Bytes := s.dropWhile isBlank

theorem length_skip_le (s : Bytes) : (skip s).length ≤ s.length :=
  (List.dropWhile_suffix isBlank).length_le

theorem length_of_skip_eq_cons {s r : Bytes} {b : UInt8} (h : skip s = b :: r) :
    r.length < s.length := by
  have hle := length_skip_le s
  rwa [h, List.length_cons] at hle

/-- What follows an octet, after blanks, if it is the first one. -/
def mark? (m : UInt8) (s : Bytes) : Option { r : Bytes // r.length < s.length } :=
  match h : skip s with
  | [] => none
  | b :: r =>
    if b = m then some ⟨r, length_of_skip_eq_cons h⟩ else none

/-! ### Strings -/

/-- The control character or mark that a letter after a backslash stands for. -/
def escaped? (b : UInt8) : Option UInt8 :=
  if b = octet '"' ∨ b = octet '\\' ∨ b = octet '/' then some b
  else if b = octet 'b' then some 0x08
  else if b = octet 'f' then some 0x0c
  else if b = octet 'n' then some 0x0a
  else if b = octet 'r' then some 0x0d
  else if b = octet 't' then some 0x09
  else none

/-- A unit of UTF-16 written as `u` and four hexadecimal digits. -/
def unit? : Bytes → Option (Nat × Bytes)
  | [] => none
  | b :: r => if b = octet 'u' then Escape.hexRun? 4 0 r else none

/-- The second half of a surrogate pair, after a backslash. -/
def lowSurrogate? : Bytes → Option (Nat × Bytes)
  | [] => none
  | b :: r =>
    if b = octet '\\' then (unit? r).filter fun u => 0xdc00 ≤ u.1 && u.1 < 0xe000 else none

/-- The character of a unit, with the second half of its pair if there is one, and the text left. -/
def unitChar (u : Nat) (s : Bytes) : Char × Bytes :=
  if 0xd800 ≤ u ∧ u < 0xdc00 then
    match lowSurrogate? s with
    | some (l, r) => (Char.ofNat (0x10000 + (u - 0xd800) * 0x400 + (l - 0xdc00)), r)
    | none => (Utf8.replacement, s)
  else if Escape.isScalar u then (Char.ofNat u, s)
  else (Utf8.replacement, s)

theorem length_of_unit? {s r : Bytes} {u : Nat} (h : unit? s = some (u, r)) :
    r.length < s.length := by
  cases s with
  | nil => simp [unit?] at h
  | cons b t =>
    rw [unit?] at h
    split at h
    · have := Escape.length_of_hexRun? h
      simp only [List.length_cons]
      omega
    · simp at h

theorem length_unitChar_le (u : Nat) (s : Bytes) : (unitChar u s).2.length ≤ s.length := by
  rw [unitChar]
  split
  · split
    · rename_i h
      cases s with
      | nil => simp [lowSurrogate?] at h
      | cons b t =>
        rw [lowSurrogate?] at h
        split at h
        · have := length_of_unit? (Option.filter_eq_some_iff.mp h).1
          simp only [List.length_cons]
          omega
        · simp at h
    · simp
  · split <;> simp

/-- The rest of a string, after its opening quote. -/
def string? (s : Bytes) : Option (Prefixed Bytes s.length) :=
  match s with
  | [] => none
  | b :: r =>
    if b = octet '"' then some ⟨[], r, Nat.lt_succ_self r.length⟩
    else if b < 0x20 then none
    else if b = octet '\\' then
      match r with
      | [] => none
      | c :: t =>
        match escaped? c with
        | some e =>
          match string? t with
          | some ⟨v, w, h⟩ => some ⟨e :: v, w, Nat.lt_add_right 2 h⟩
          | none => none
        | none =>
          match hu : unit? (c :: t) with
          | none => none
          | some (u, t') =>
            have h₁ := length_of_unit? hu
            have h₂ := length_unitChar_le u t'
            match string? (unitChar u t').2 with
            | some ⟨v, w, h⟩ =>
              some ⟨Utf8.encode (unitChar u t').1 ++ v, w,
                Nat.lt_succ_of_lt (Nat.lt_trans (Nat.lt_of_lt_of_le h h₂) h₁)⟩
            | none => none
    else
      match hu : Utf8.uncons? (b :: r) with
      | none => none
      | some (c, t) =>
        have h₁ := Utf8.length_of_uncons? hu
        match string? t with
        | some ⟨v, w, h⟩ => some ⟨Utf8.encode (c.getD Utf8.replacement) ++ v, w, Nat.lt_trans h h₁⟩
        | none => none
termination_by s.length
decreasing_by
  · exact Nat.lt_add_of_pos_right (Nat.succ_pos 1)
  · exact Nat.lt_succ_of_lt (Nat.lt_of_le_of_lt h₂ h₁)
  · exact h₁

/-! ### Numbers -/

/-- At least one digit, and the text left. -/
def digits? (s : Bytes) : Option (Bytes × Bytes) :=
  if s.head?.any isDigitOctet then some (s.takeWhile isDigitOctet, s.dropWhile isDigitOctet)
  else none

/-- The integer part of a number: a zero alone, or digits that do not start with one. -/
def integer? : Bytes → Option (Bytes × Bytes)
  | [] => none
  | b :: r => if b = octet '0' then some ([b], r) else digits? (b :: r)

/-- The fraction of a number, if it has one, and the text left. -/
def fraction? : Bytes → Option (Bytes × Bytes)
  | [] => some ([], [])
  | b :: r =>
    if b = octet '.' then (digits? r).map fun d => (b :: d.1, d.2) else some ([], b :: r)

/-- The sign of an exponent, if it has one, and the text left. -/
def sign : Bytes → Bytes × Bytes
  | [] => ([], [])
  | b :: r => if b = octet '+' ∨ b = octet '-' then ([b], r) else ([], b :: r)

/-- The exponent of a number, if it has one, and the text left. -/
def exponent? : Bytes → Option (Bytes × Bytes)
  | [] => some ([], [])
  | b :: r =>
    if b = octet 'e' ∨ b = octet 'E' then
      (digits? (sign r).2).map fun d => (b :: (sign r).1 ++ d.1, d.2)
    else some ([], b :: r)

/-- The sign of a number, if it has one, and the text left. -/
def minus : Bytes → Bytes × Bytes
  | [] => ([], [])
  | b :: r => if b = octet '-' then ([b], r) else ([], b :: r)

/-- The number that a text starts with, and the text left. -/
def number? (s : Bytes) : Option (Bytes × Bytes) :=
  match integer? (minus s).2 with
  | none => none
  | some (i, r) =>
    match fraction? r with
    | none => none
    | some (f, r') =>
      match exponent? r' with
      | none => none
      | some (e, r'') => some ((minus s).1 ++ i ++ f ++ e, r'')

/-- The constant or number that a text starts with, and the text left. -/
def scalar? (s : Bytes) : Option (Json × Bytes) :=
  match Bytes.after? (utf8 "null") s, Bytes.after? (utf8 "true") s,
      Bytes.after? (utf8 "false") s with
  | some r, _, _ => some (.null, r)
  | _, some r, _ => some (.bool true, r)
  | _, _, some r => some (.bool false, r)
  | none, none, none => (number? s).map fun n => (.number n.1, n.2)

/-! ### Values -/

/-- A text that is shorter than the one it was read from. -/
def checked {α : Type} (n : Nat) (v : α) (r : Bytes) : Option (Prefixed α n) :=
  if h : r.length < n then some ⟨v, r, h⟩ else none

mutual

/-- The value that a text starts with. -/
def value? (s : Bytes) : Option (Prefixed Json s.length) :=
  match mark? (octet '"') s with
  | some ⟨r, h⟩ =>
    match string? r with
    | some ⟨v, t, h'⟩ => some ⟨.string v, t, by omega⟩
    | none => none
  | none =>
    match mark? (octet '[') s with
    | some ⟨r, h⟩ =>
      match items? r with
      | some ⟨vs, t, h'⟩ => some ⟨.array vs, t, by omega⟩
      | none => none
    | none =>
      match mark? 0x7b s with
      | some ⟨r, h⟩ =>
        match members? r with
        | some ⟨ms, t, h'⟩ => some ⟨.object ms, t, by omega⟩
        | none => none
      | none =>
        match scalar? (skip s) with
        | some (v, r) => checked s.length v r
        | none => none
termination_by (s.length, 0)

/-- The items of an array, after its opening bracket. -/
def items? (s : Bytes) : Option (Prefixed (List Json) s.length) :=
  match mark? (octet ']') s with
  | some ⟨r, h⟩ => some ⟨[], r, h⟩
  | none => moreItems? s
termination_by (s.length, 2)

/-- At least one item of an array, and the closing bracket. -/
def moreItems? (s : Bytes) : Option (Prefixed (List Json) s.length) :=
  match value? s with
  | none => none
  | some ⟨v, r, h⟩ =>
    match mark? (octet ']') r with
    | some ⟨t, h'⟩ => some ⟨[v], t, by omega⟩
    | none =>
      match mark? (octet ',') r with
      | none => none
      | some ⟨t, h'⟩ =>
        match moreItems? t with
        | none => none
        | some ⟨vs, u, h''⟩ => some ⟨v :: vs, u, by omega⟩
termination_by (s.length, 1)

/-- The members of an object, after its opening brace. -/
def members? (s : Bytes) : Option (Prefixed (List (Bytes × Json)) s.length) :=
  match mark? 0x7d s with
  | some ⟨r, h⟩ => some ⟨[], r, h⟩
  | none => moreMembers? s
termination_by (s.length, 2)

/-- At least one member of an object, and the closing brace. -/
def moreMembers? (s : Bytes) : Option (Prefixed (List (Bytes × Json)) s.length) :=
  match mark? (octet '"') s with
  | none => none
  | some ⟨r, h⟩ =>
    match string? r with
    | none => none
    | some ⟨k, t, ht⟩ =>
      match mark? (octet ':') t with
      | none => none
      | some ⟨t', h'⟩ =>
        match value? t' with
        | none => none
        | some ⟨v, u, hu⟩ =>
          match mark? 0x7d u with
          | some ⟨w, hw⟩ => some ⟨[(k, v)], w, by omega⟩
          | none =>
            match mark? (octet ',') u with
            | none => none
            | some ⟨w, hw⟩ =>
              match moreMembers? w with
              | none => none
              | some ⟨ms, x, hx⟩ => some ⟨(k, v) :: ms, x, by omega⟩
termination_by (s.length, 1)

end

/-- The value that a text starts with. -/
def read? (s : Bytes) : Option Json := (value? s).map (·.value)

end Json

end LiveMarkup
