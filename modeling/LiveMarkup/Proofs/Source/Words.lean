import LiveMarkup.Source.TagLine
import Mathlib.Data.List.Basic

/-!
# Words at the start of a line

Tags and bindings are words: an octet of one class, then octets of another. `LiveMarkup.isWord` is
the form alone. What is taken off the front of a text is such a word
(`LiveMarkup.isWord_takeWord`), and a word in front of something that cannot go on with it is taken
off whole (`LiveMarkup.takeWord_append_of_isWord`).

So whatever a tag line or a text line is, its tag and its binding have the form of one.

Texts of some octets only are free of others: `LiveMarkup.avoids` is what is asked of a text that
goes somewhere without being escaped.
-/

namespace LiveMarkup

/-- Whether a text is a word: an octet of one class, then octets of another. -/
def isWord (first more : UInt8 → Bool) : Bytes → Bool
  | [] => false
  | b :: r => first b && r.all more

/-- Whether a text has the form of a tag. -/
def isTag (s : Bytes) : Bool := isWord isLowerOctet isTagOctet s

/-- Whether a text has the form of a binding. -/
def isBinding (s : Bytes) : Bool := isWord isBindingStart isIdentOctet s

theorem Bytes.eq_of_after? {p s r : Bytes} (h : after? p s = some r) : s = p ++ r := by
  induction p generalizing s with
  | nil => exact Option.some.inj h
  | cons a p ih =>
    cases s with
    | nil => exact absurd h (by simp [after?])
    | cons b s =>
      rw [after?] at h
      split at h
      · rename_i hab
        rw [hab, ih h, List.cons_append]
      · exact absurd h (by simp)

/-! ### Texts without some octets -/

/-- Whether a text has none of some octets. -/
def avoids (bad : List UInt8) (s : Bytes) : Bool := s.all fun b => !bad.contains b

section Avoids

variable {bad : List UInt8}

theorem avoids_iff {s : Bytes} : avoids bad s ↔ ∀ b ∈ s, b ∉ bad := by
  simp [avoids]

@[simp] theorem avoids_nil : avoids bad [] = true := rfl

@[simp] theorem avoids_append (s t : Bytes) :
    avoids bad (s ++ t) = (avoids bad s && avoids bad t) := List.all_append

/-- A text of a class without those octets has none of them. -/
theorem avoids_of_all {p : UInt8 → Bool} (hbad : bad.all fun b => !p b) {s : Bytes}
    (hs : s.all p) : avoids bad s := by
  rw [avoids_iff]
  intro b hb hmem
  have hp := List.all_eq_true.mp hbad b hmem
  rw [List.all_eq_true.mp hs b hb] at hp
  exact absurd hp (by simp)

end Avoids

/-! ### Words -/

section Boundary

variable {p : UInt8 → Bool} {w s : Bytes}

/-- The octets of a class in front of a text that starts with none of them. -/
theorem takeWhile_append_of_boundary (hw : ∀ b ∈ w, p b) (hs : s.head?.any p = false) :
    (w ++ s).takeWhile p = w := by
  have hstop : s.takeWhile p = [] := by
    cases s with
    | nil => rfl
    | cons b s => exact List.takeWhile_cons_of_neg (by simpa using hs)
  rw [List.takeWhile_append_of_pos hw, hstop, List.append_nil]

theorem dropWhile_append_of_boundary (hw : ∀ b ∈ w, p b) (hs : s.head?.any p = false) :
    (w ++ s).dropWhile p = s := by
  rw [List.dropWhile_append_of_pos hw]
  cases s with
  | nil => rfl
  | cons b s => exact List.dropWhile_cons_of_neg (by simpa using hs)

end Boundary

section Word

variable {first more : UInt8 → Bool}

theorem ne_nil_of_isWord {w : Bytes} (h : isWord first more w) : w ≠ [] := by
  rintro rfl
  exact absurd h (by simp [isWord])

/-- What holds of the octets of both classes holds of the octets of a word. -/
theorem forall_mem_of_isWord {P : UInt8 → Prop} (hfirst : ∀ b, first b → P b)
    (hmore : ∀ b, more b → P b) {w : Bytes} (h : isWord first more w) : ∀ b ∈ w, P b := by
  cases w with
  | nil => simp
  | cons c r =>
    rw [isWord, Bool.and_eq_true, List.all_eq_true] at h
    intro b hb
    rcases List.mem_cons.mp hb with rfl | hb
    · exact hfirst b h.1
    · exact hmore b (h.2 b hb)

/-- **What is taken off is a word**, if it is anything. -/
theorem isWord_takeWord {s : Bytes} (h : (takeWord first more s).1 ≠ []) :
    isWord first more (takeWord first more s).1 := by
  cases s with
  | nil => exact absurd rfl h
  | cons b r =>
    rw [takeWord] at h ⊢
    split
    · rename_i hb
      rw [isWord, hb, Bool.true_and]
      exact List.all_takeWhile
    · rename_i hb
      rw [if_neg hb] at h
      exact absurd rfl h

/-- **A word is taken off whole** in front of what cannot go on with it. -/
theorem takeWord_append_of_isWord {w s : Bytes} (h : isWord first more w)
    (hs : s.head?.any more = false) : takeWord first more (w ++ s) = (w, s) := by
  cases w with
  | nil => exact absurd h (by simp [isWord])
  | cons b r =>
    rw [isWord, Bool.and_eq_true, List.all_eq_true] at h
    rw [List.cons_append, takeWord, if_pos h.1, takeWhile_append_of_boundary h.2 hs,
      dropWhile_append_of_boundary h.2 hs]

end Word

theorem isBinding_of_takeBind {s x : Bytes} (h : (takeBind s).1 = some x) : isBinding x := by
  rw [takeBind] at h
  split at h
  · exact absurd h (by simp)
  · rename_i hne
    obtain rfl := Option.some.inj h
    have hword : (takeBinding s).1 ≠ [] := by simpa using hne
    exact isWord_takeWord hword

namespace TagLine

/-- The tag and the binding of a tag line are what is taken off in their places. -/
theorem of_parse? {s : Bytes} {t : TagLine} (h : parse? s = some t) :
    t.tag = (takeTag s).1 ∧ (takeTag s).1 ≠ [] ∧ ∃ r, t.binding = (takeBind r).1 := by
  rw [parse?] at h
  split at h
  · exact absurd h (by simp)
  rename_i htag
  split at h
  · exact absurd h (by simp)
  dsimp only at h
  split at h
  · exact absurd h (by simp)
  split at h
  · obtain rfl := Option.some.inj h
    exact ⟨rfl, by simpa using htag, _, rfl⟩
  · exact absurd h (by simp)

/-- **The tag of a tag line has the form of a tag.** -/
theorem isTag_of_parse? {s : Bytes} {t : TagLine} (h : parse? s = some t) : isTag t.tag := by
  obtain ⟨htag, hne, -⟩ := of_parse? h
  rw [htag]
  exact isWord_takeWord hne

theorem isBinding_of_parse? {s x : Bytes} {t : TagLine} (h : parse? s = some t)
    (hx : t.binding = some x) : isBinding x := by
  obtain ⟨-, -, r, hr⟩ := of_parse? h
  exact isBinding_of_takeBind (hr.symm.trans hx)

end TagLine

theorem TextLine.isBinding_of_parse? {s x : Bytes} {t : TextLine} (h : parse? s = some t)
    (hx : t.binding = some x) : isBinding x := by
  rw [parse?] at h
  split at h
  · exact absurd h (by simp)
  dsimp only at h
  split at h
  · obtain rfl := Option.some.inj h
    exact isBinding_of_takeBind hx
  · exact absurd h (by simp)

end LiveMarkup
