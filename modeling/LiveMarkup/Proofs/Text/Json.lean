import LiveMarkup.Proofs.Text.ScriptString
import LiveMarkup.Text.Json
import Mathlib.Algebra.Group.Nat.Defs

/-!
# Strings of JSON are read back

The string literals of scripts are strings of JSON too. Each character is read back from the way it
is written, whatever follows it (`LiveMarkup.Json.spells_char`), so a literal is read as its text,
with stray octets replaced (`LiveMarkup.Json.parts?_string?`), and an object with one string as that
object (`LiveMarkup.Json.read?_object`).
-/

namespace LiveMarkup

namespace Escape

/-- **The digits of a number are read as the number**, after the digits in front of them. -/
theorem hexRun?_hexDigits {w n : Nat} (hn : n < 16 ^ w) (k v : Nat) (r : Bytes) :
    hexRun? (w + k) v (hexDigits w n ++ r) = hexRun? k (v * 16 ^ w + n) r := by
  have hdigit : ∀ d < 16, hexValue? (hexDigit d) = some d := by decide
  induction w generalizing n k r with
  | zero =>
    obtain rfl : n = 0 := by omega
    rw [Nat.zero_add, hexDigits, Nat.pow_zero, Nat.mul_one]
    rfl
  | succ w ih =>
    have hlt : n / 16 < 16 ^ w := by
      rw [Nat.pow_succ] at hn
      omega
    rw [hexDigits, List.append_assoc, List.singleton_append, Nat.add_right_comm, Nat.add_assoc,
      ih hlt, hexRun?, hdigit (n % 16) (Nat.mod_lt n (by omega)), Nat.pow_succ]
    dsimp only
    congr 1
    rw [Nat.add_mul, Nat.mul_assoc]
    omega

end Escape

namespace Json

/-- What was read and the text left. -/
def parts? {α : Type} {n : Nat} (o : Option (Prefixed α n)) : Option (α × Bytes) :=
  o.map fun p => (p.value, p.rest)

theorem parts?_eq_some_iff {α : Type} {n : Nat} {o : Option (Prefixed α n)} {v : α} {r : Bytes} :
    parts? o = some (v, r) ↔ ∃ h, o = some ⟨v, r, h⟩ := by
  constructor
  · intro ho
    obtain ⟨⟨v', r', h⟩, rfl, heq⟩ := Option.map_eq_some_iff.mp ho
    obtain ⟨rfl, rfl⟩ := Prod.mk.inj heq
    exact ⟨h, rfl⟩
  · rintro ⟨h, rfl⟩
    rfl

/-! ### Strings -/

theorem parts?_string?_quote (r : Bytes) : parts? (string? (octet '"' :: r)) = some ([], r) := by
  rw [string?.eq_def]
  dsimp only
  rw [if_pos rfl]
  rfl

theorem parts?_string?_escape {c e : UInt8} (h : escaped? c = some e) (r : Bytes) :
    parts? (string? (octet '\\' :: c :: r)) =
      (parts? (string? r)).map fun y => (e :: y.1, y.2) := by
  rw [string?, if_neg (by decide), if_neg (by decide), if_pos rfl]
  dsimp only
  rw [h]
  dsimp only
  cases string? r <;> rfl

theorem parts?_string?_unit {c : UInt8} (hc : escaped? c = none) {u : Nat} {r t : Bytes}
    (hu : unit? (c :: r) = some (u, t)) :
    parts? (string? (octet '\\' :: c :: r)) =
      (parts? (string? (unitChar u t).2)).map
        fun y => (Utf8.encode (unitChar u t).1 ++ y.1, y.2) := by
  rw [string?, if_neg (by decide), if_neg (by decide), if_pos rfl]
  dsimp only
  rw [hc]
  dsimp only
  split
  · rename_i hnone
    rw [hu] at hnone
    cases hnone
  · rename_i u' t' hsome
    rw [hu] at hsome
    obtain ⟨rfl, rfl⟩ := Prod.mk.inj (Option.some.inj hsome)
    cases string? (unitChar u t).2 <;> rfl

theorem parts?_string?_plain {b : UInt8} (hquote : b ≠ octet '"') (hcontrol : ¬b < 0x20)
    (hslash : b ≠ octet '\\') {c : Char} {r t : Bytes}
    (hc : Utf8.uncons? (b :: r) = some (some c, t)) :
    parts? (string? (b :: r)) =
      (parts? (string? t)).map fun y => (Utf8.encode c ++ y.1, y.2) := by
  rw [string?.eq_def]
  dsimp only
  rw [if_neg hquote, if_neg hcontrol, if_neg hslash]
  split
  · rename_i hnone
    rw [hc] at hnone
    cases hnone
  · rename_i c' t' hsome
    rw [hc] at hsome
    obtain ⟨rfl, rfl⟩ := Prod.mk.inj (Option.some.inj hsome)
    cases string? t <;> rfl

/-- A text in a string that is read as one character. -/
def Spells (s : Bytes) (c : Char) : Prop :=
  ∀ r : Bytes, parts? (string? (s ++ r)) =
    (parts? (string? r)).map fun y => (Utf8.encode c ++ y.1, y.2)

theorem spells_escape {c : Char} {b : UInt8} (h : (escaped? b).toList = Utf8.encode c) :
    Spells [octet '\\', b] c := by
  intro r
  cases hb : escaped? b with
  | none =>
    rw [hb] at h
    exact absurd h.symm (Utf8.encode_ne_nil c)
  | some e =>
    rw [hb] at h
    rw [← h]
    exact parts?_string?_escape hb r

theorem spells_coded {c : Char} (hc : c.toNat < 0xd800) : Spells (ScriptString.coded c) c := by
  intro r
  have hunit : unit? (octet 'u' :: (hexDigits 4 c.toNat ++ r)) = some (c.toNat, r) := by
    rw [unit?, if_pos rfl]
    refine (Escape.hexRun?_hexDigits (by omega) 0 0 r).trans ?_
    rw [Nat.zero_mul, Nat.zero_add]
    rfl
  have hchar : unitChar c.toNat r = (c, r) := by
    have hscalar : Escape.isScalar c.toNat := by
      rw [Escape.isScalar, decide_eq_true hc, Bool.true_or]
    rw [unitChar, if_neg (by omega), if_pos hscalar, Char.ofNat_toNat]
  have hread := parts?_string?_unit (by decide) hunit
  rw [hchar] at hread
  exact hread

theorem spells_plain {c : Char} (hescape : c ∉ ScriptString.escapes.map Prod.fst)
    (hcoded : ¬ScriptString.isCoded c) : Spells (Utf8.encode c) c := by
  intro r
  have hread := Utf8.uncons?_encode c r
  -- The first octet is neither one of the two marks nor a control character.
  have hne {d : Char} (hd : d ∈ ScriptString.escapes.map Prod.fst) (hlt : d.toNat < 0x80) :
      octet d ∉ Utf8.encode c := fun h =>
    hescape (Utf8.eq_of_octet_mem_encode hlt h ▸ hd)
  have hcontrol {b : UInt8} (hb : b ∈ Utf8.encode c) : ¬b < 0x20 := by
    intro h
    have hlt : b.toNat < 0x20 := UInt8.lt_iff_toNat_lt.mp h
    obtain ⟨hc, -⟩ := Utf8.mem_encode hb (by omega)
    exact hcoded (decide_eq_true (Or.inl (by omega)))
  cases hoctets : Utf8.encode c with
  | nil => exact absurd hoctets (Utf8.encode_ne_nil c)
  | cons b t =>
    have hb : b ∈ Utf8.encode c := hoctets ▸ List.mem_cons_self
    have hquote : b ≠ octet '"' := by
      rintro rfl
      exact hne (by decide) (by decide) hb
    have hslash : b ≠ octet '\\' := by
      rintro rfl
      exact hne (by decide) (by decide) hb
    rw [hoctets, List.cons_append] at hread
    rw [List.cons_append, parts?_string?_plain hquote (hcontrol hb) hslash hread, hoctets]

/-- **The way in which a character is written is read as the character.** -/
theorem spells_char (c : Char) : Spells (ScriptString.char c) c := by
  refine ScriptString.char_cases c (fun y hy => ?_)
    (fun _ hcoded => spells_coded (ScriptString.toNat_lt_of_isCoded hcoded)) spells_plain
  have hescaped : ∀ y ∈ ScriptString.escapes,
      (escaped? (octet y.2)).toList = Utf8.encode y.1 := by decide
  exact spells_escape (hescaped y hy)

/-- **What stands between the quotation marks of a literal is read back.** -/
theorem parts?_string? (cs : List Char) (r : Bytes) :
    parts? (string? (cs.flatMap ScriptString.char ++ octet '"' :: r)) =
      some (Utf8.encodeAll cs, r) := by
  induction cs with
  | nil => exact parts?_string?_quote r
  | cons c cs ih =>
    rw [List.flatMap_cons, List.append_assoc, spells_char, ih]
    rfl

/-! ### Values -/

theorem mark?_self {m : UInt8} (hm : isBlank m = false) (r : Bytes) :
    ∃ h, mark? m (m :: r) = some ⟨r, h⟩ := by
  have hskip : skip (m :: r) = m :: r := List.dropWhile_cons_of_neg (by simp [hm])
  refine ⟨Nat.lt_succ_self r.length, ?_⟩
  rw [mark?]
  split
  · rename_i hnil
    rw [hskip] at hnil
    cases hnil
  · rename_i b t hcons
    rw [hskip] at hcons
    obtain ⟨rfl, rfl⟩ := List.cons.inj hcons
    rw [if_pos rfl]

theorem mark?_of_ne {m b : UInt8} (hb : isBlank b = false) (hne : b ≠ m) (r : Bytes) :
    mark? m (b :: r) = none := by
  have hskip : skip (b :: r) = b :: r := List.dropWhile_cons_of_neg (by simp [hb])
  rw [mark?]
  split
  · rfl
  · rename_i b' t hcons
    rw [hskip] at hcons
    obtain ⟨rfl, rfl⟩ := List.cons.inj hcons
    rw [if_neg hne]

theorem scriptString_append (s r : Bytes) : scriptString s ++ r =
    octet '"' :: ((Utf8.lossy s).flatMap ScriptString.char ++ octet '"' :: r) := by
  rw [scriptString_eq, List.cons_append, List.append_assoc, List.singleton_append]

/-- A string literal is a string of JSON, with the text as its value. -/
theorem parts?_value?_scriptString (s r : Bytes) :
    parts? (value? (scriptString s ++ r)) = some (.string (Utf8.repair s), r) := by
  rw [scriptString_append]
  obtain ⟨_, hquote⟩ := mark?_self (m := octet '"') (by decide)
    ((Utf8.lossy s).flatMap ScriptString.char ++ octet '"' :: r)
  obtain ⟨_, hstring⟩ := parts?_eq_some_iff.mp (parts?_string? (Utf8.lossy s) r)
  rw [value?, hquote]
  dsimp only
  rw [hstring]
  rfl

theorem parts?_moreMembers?_scriptString (k s r : Bytes) :
    parts? (moreMembers? (scriptString k ++ octet ':' :: (scriptString s ++ 0x7d :: r))) =
      some ([(Utf8.repair k, .string (Utf8.repair s))], r) := by
  rw [scriptString_append k]
  obtain ⟨_, hquote⟩ := mark?_self (m := octet '"') (by decide) ((Utf8.lossy k).flatMap
    ScriptString.char ++ octet '"' :: octet ':' :: (scriptString s ++ 0x7d :: r))
  obtain ⟨_, hkey⟩ := parts?_eq_some_iff.mp (parts?_string? (Utf8.lossy k)
    (octet ':' :: (scriptString s ++ 0x7d :: r)))
  obtain ⟨_, hcolon⟩ := mark?_self (m := octet ':') (by decide) (scriptString s ++ 0x7d :: r)
  obtain ⟨_, hvalue⟩ := parts?_eq_some_iff.mp (parts?_value?_scriptString s (0x7d :: r))
  obtain ⟨_, hbrace⟩ := mark?_self (m := 0x7d) (by decide) r
  rw [moreMembers?, hquote]
  dsimp only
  rw [hkey]
  dsimp only
  rw [hcolon]
  dsimp only
  rw [hvalue]
  dsimp only
  rw [hbrace]
  rfl

/-- **An object with one string** is read as it is written. -/
theorem read?_object (k s r : Bytes) :
    read? (0x7b :: (scriptString k ++ octet ':' :: (scriptString s ++ 0x7d :: r))) =
      some (.object [(Utf8.repair k, .string (Utf8.repair s))]) := by
  have hmembers : ∃ h, members? (scriptString k ++ octet ':' :: (scriptString s ++ 0x7d :: r)) =
      some ⟨[(Utf8.repair k, .string (Utf8.repair s))], r, h⟩ := by
    obtain ⟨h, hmore⟩ := parts?_eq_some_iff.mp (parts?_moreMembers?_scriptString k s r)
    have hnone : mark? 0x7d (scriptString k ++ octet ':' :: (scriptString s ++ 0x7d :: r)) = none :=
      scriptString_append k _ ▸ mark?_of_ne (by decide) (by decide) _
    refine ⟨h, ?_⟩
    rw [members?, hnone]
    exact hmore
  obtain ⟨_, hmembers⟩ := hmembers
  obtain ⟨_, hbrace⟩ := mark?_self (m := 0x7b) (by decide)
    (scriptString k ++ octet ':' :: (scriptString s ++ 0x7d :: r))
  rw [read?, value?, mark?_of_ne (by decide) (by decide), mark?_of_ne (by decide) (by decide),
    hbrace]
  dsimp only
  rw [hmembers]
  rfl

end Json

end LiveMarkup
