import LiveMarkup.Proofs.Text.Parts
import LiveMarkup.Text.Quoted

/-!
# Literals with well-formed content

The strict reading of a literal knows escape sequences that give an octet or a character by its
number, and with them a well-formed literal can have a content that is none. They are the only way:
the content of a well-formed literal without them is well-formed.

A value of a style is read twice, once with the list it stands in and once for itself. So it matters
as well that no such sequence arises in the content of a literal that has none, and the two facts
are proved together, as `LiveMarkup.Quoted.IsDirect.content`. What makes the induction work is that
a content can start with the letter or the digit of such a sequence only if the literal does.
-/

namespace LiveMarkup

/-- Whether an octet after a backslash starts an escape sequence with a number. -/
def Escape.isNumeric (b : UInt8) : Bool := (hexWidth? b).isSome || (octalValue? b).isSome

namespace Quoted

/-- Whether a text has an escape sequence with a number. -/
def hasNumber : Bytes → Bool
  | [] => false
  | b :: s => (b == octet '\\' && s.head?.any Escape.isNumeric) || hasNumber s

theorem hasNumber_iff {s : Bytes} :
    hasNumber s ↔ ∃ c, Escape.isNumeric c ∧ [octet '\\', c] <:+: s := by
  induction s with
  | nil => simp [hasNumber]
  | cons b s ih =>
    have hfront : (b == octet '\\' && s.head?.any Escape.isNumeric) = true ↔
        ∃ c, Escape.isNumeric c ∧ [octet '\\', c] <+: b :: s := by
      cases s with
      | nil => simp
      | cons c s =>
        simp only [Bool.and_eq_true, beq_iff_eq, List.head?_cons, Option.any_some,
          List.cons_prefix_cons, List.nil_prefix, and_true]
        constructor
        · rintro ⟨rfl, hc⟩
          exact ⟨c, hc, rfl, rfl⟩
        · rintro ⟨d, hd, rfl, rfl⟩
          exact ⟨rfl, hd⟩
    rw [hasNumber, Bool.or_eq_true, hfront, ih, ← exists_or]
    simp only [List.infix_cons_iff, and_or_left]

/-- What has no backslash has no such sequence, and starts none. -/
theorem hasNumber_append {w : Bytes} (hw : octet '\\' ∉ w) (s : Bytes) :
    hasNumber (w ++ s) = hasNumber s := by
  induction w with
  | nil => rfl
  | cons b w ih =>
    rw [List.mem_cons, not_or] at hw
    have hb : (b == octet '\\') = false := by simpa using Ne.symm hw.1
    rw [List.cons_append, hasNumber, hb, Bool.false_and, Bool.false_or, ih hw.2]

/-- **A text that means what is written**: it is well-formed and gives no character by its number.
-/
structure IsDirect (s : Bytes) : Prop where
  valid : Utf8.isValid s
  numberless : hasNumber s = false

/-! ### The strict reading -/

/-- **An escape sequence without a number** is one octet of ASCII for one octet of ASCII. A
backslash comes only from a backslash. -/
theorem escape?_of_not_isNumeric {q b : UInt8} {s o r : Bytes} (hb : Escape.isNumeric b = false)
    (h : escape? q (b :: s) = some (o, r)) : r = s ∧ b.toNat < 0x80 ∧
      ∃ c, o = [c] ∧ c.toNat < 0x80 ∧ Escape.isNumeric c = false ∧
        (c = octet '\\' → b = octet '\\') := by
  rw [Escape.isNumeric, Bool.or_eq_false_iff, Option.isSome_eq_false_iff,
    Option.isNone_iff_eq_none] at hb
  rw [escape?] at h
  split at h
  · rename_i c hc
    obtain ⟨rfl, rfl⟩ : [c] = o ∧ s = r := by simpa using h
    have hcontrol : b.toNat < 0x80 ∧ c.toNat < 0x80 ∧ Escape.isNumeric c = false ∧
        c ≠ octet '\\' := by
      rw [Escape.control?] at hc
      split_ifs at hc with h₁ h₂ h₃ h₄ h₅ h₆ h₇
      all_goals
        obtain rfl := Option.some.inj hc
        subst b
        decide
    exact ⟨rfl, hcontrol.1, c, rfl, hcontrol.2.1, hcontrol.2.2.1,
      fun heq => absurd heq hcontrol.2.2.2⟩
  · rw [hb.1] at h
    dsimp only at h
    rw [if_neg (by simp [hb.2])] at h
    split at h
    · rename_i hmark
      obtain ⟨rfl, rfl⟩ : [b] = o ∧ s = r := by simpa using h
      have hascii : b.toNat < 0x80 ∧ Escape.isNumeric b = false := by
        simp only [isQuote, Bool.or_eq_true, Bool.and_eq_true, decide_eq_true_eq,
          beq_iff_eq] at hmark
        rcases hmark with rfl | ⟨rfl | rfl, -⟩ <;> decide
      exact ⟨rfl, hascii.1, b, rfl, hascii.1, hascii.2, id⟩
    · exact absurd h (by simp)

/-- In a text without numbers an octet behind a backslash starts none, and what follows it has none.
-/
theorem hasNumber_cons_eq_false {b : UInt8} {s : Bytes} : hasNumber (b :: s) = false ↔
    (b = octet '\\' → s.head?.any Escape.isNumeric = false) ∧ hasNumber s = false := by
  rw [hasNumber, Bool.or_eq_false_iff, Bool.and_eq_false_imp, beq_iff_eq]

theorem isDirect_nil : IsDirect [] := ⟨Utf8.isValid_utf8 "", rfl⟩

/-- **A literal without numbers that is read strictly** has a content of the same kind, which starts
with the mark of a number only if the literal does. -/
theorem isDirect_of_strict? {q : UInt8} {s t : Bytes} (h : strict? q s = some t)
    (hs : IsDirect s) :
    IsDirect t ∧ (s.head?.any Escape.isNumeric = false → t.head?.any Escape.isNumeric = false) := by
  fun_induction strict? q s generalizing t with
  | case1 | case3 | case4 | case5 | case7 => exact absurd h (by simp)
  | case2 s _ =>
    obtain rfl := Option.some.inj h
    exact ⟨isDirect_nil, fun _ => rfl⟩
  | case6 s o r hescape _ _ ih =>
    -- An escape sequence, which is not a number.
    obtain ⟨w, hw, rfl⟩ := Option.map_eq_some_iff.mp h
    obtain ⟨hmark, hrest⟩ := hasNumber_cons_eq_false.mp hs.numberless
    cases s with
    | nil => exact absurd hescape (by simp [escape?])
    | cons b s =>
      have hb : Escape.isNumeric b = false := by simpa using hmark rfl
      obtain ⟨rfl, hbascii, c, rfl, hc, hcnumeric, hbackslash⟩ :=
        escape?_of_not_isNumeric hb hescape
      obtain ⟨hnext, hnumberless⟩ := hasNumber_cons_eq_false.mp hrest
      have hvalid : Utf8.isValid r := by
        have hall := hs.valid
        rwa [Utf8.isValid_cons (by decide), Utf8.isValid_cons hbascii] at hall
      obtain ⟨⟨hwvalid, hwnumberless⟩, hwhead⟩ := ih hw ⟨hvalid, hnumberless⟩
      rw [List.singleton_append]
      refine ⟨⟨by rwa [Utf8.isValid_cons hc], ?_⟩, fun _ => by simpa using hcnumeric⟩
      exact hasNumber_cons_eq_false.mpr ⟨fun heq => hwhead (hnext (hbackslash heq)), hwnumberless⟩
  | case8 b s _ _ hb c r huncons ih =>
    -- A character for itself.
    obtain ⟨w, hw, rfl⟩ := Option.map_eq_some_iff.mp h
    have hvalid := hs.valid
    rw [Utf8.isValid, Utf8.chars_of_uncons? huncons, List.all_cons, Bool.and_eq_true] at hvalid
    obtain ⟨d, rfl⟩ := Option.isSome_iff_exists.mp hvalid.1
    have hsplit := Utf8.eq_encode_of_uncons? huncons
    have hbackslash : octet '\\' ∉ Utf8.encode d := by
      intro hmem
      obtain rfl := Utf8.eq_of_octet_mem_encode (by decide) hmem
      exact hb (List.cons.inj hsplit).1
    have hnumberless := hs.numberless
    rw [hsplit, hasNumber_append hbackslash] at hnumberless
    obtain ⟨⟨hwvalid, hwnumberless⟩, -⟩ := ih hw ⟨hvalid.2, hnumberless⟩
    rw [Option.getD_some]
    refine ⟨⟨?_, by rwa [hasNumber_append hbackslash]⟩, fun hhead => ?_⟩
    · exact Utf8.isValid_append (Utf8.isValid_iff.mpr ⟨[d], (List.append_nil _).symm⟩) hwvalid
    · rw [hsplit, List.head?_append_of_ne_nil _ (Utf8.encode_ne_nil d)] at hhead
      rwa [List.head?_append_of_ne_nil _ (Utf8.encode_ne_nil d)]

/-! ### The plain reading -/

/-- Only octets of ASCII are dropped in the plain reading. -/
theorem isValid_plain {q : UInt8} (hq : q.toNat < 0x80) (u s : Bytes) :
    Utf8.isValid (u ++ plain q s) = Utf8.isValid (u ++ s) := by
  have hslash : (octet '\\').toNat < 0x80 := by decide
  fun_induction plain q s generalizing u with
  | case1 | case2 => rfl
  | case3 b c s h ih =>
    rw [h.1, h.2, Utf8.isValid_append_cons hq, Utf8.isValid_append_cons hslash,
      Utf8.isValid_cons hq]
    exact congrArg _ (ih [])
  | case4 b c s _ h ih =>
    rw [h.1, h.2, Utf8.isValid_append_cons hslash, Utf8.isValid_append_cons hslash,
      Utf8.isValid_cons hslash]
    exact congrArg _ (ih [])
  | case5 b c s _ _ ih =>
    have hmoved := ih (u ++ [b])
    rwa [← List.append_cons, ← List.append_cons] at hmoved

/-- No sequence with a number arises in the plain reading, and none is begun. -/
theorem hasNumber_plain {q : UInt8} (hq : isQuote q) {s : Bytes} (h : hasNumber s = false) :
    hasNumber (plain q s) = false ∧
    (s.head?.any Escape.isNumeric = false →
      (plain q s).head?.any Escape.isNumeric = false) := by
  have hquote : q ≠ octet '\\' ∧ Escape.isNumeric q = false := by
    rw [isQuote, Bool.or_eq_true, beq_iff_eq, beq_iff_eq] at hq
    rcases hq with rfl | rfl <;> decide
  fun_induction plain q s with
  | case1 | case2 => exact ⟨h, id⟩
  | case3 b c s hbc ih =>
    obtain ⟨-, hrest⟩ := hasNumber_cons_eq_false.mp h
    obtain ⟨hplain, -⟩ := ih (hasNumber_cons_eq_false.mp hrest).2
    exact ⟨hasNumber_cons_eq_false.mpr ⟨fun heq => absurd heq hquote.1, hplain⟩,
      fun _ => by simpa using hquote.2⟩
  | case4 b c s _ hbc ih =>
    obtain ⟨-, hrest⟩ := hasNumber_cons_eq_false.mp h
    obtain ⟨hnext, hs⟩ := hasNumber_cons_eq_false.mp hrest
    obtain ⟨hplain, hhead⟩ := ih hs
    exact ⟨hasNumber_cons_eq_false.mpr ⟨fun _ => hhead (hnext hbc.2), hplain⟩,
      fun _ => show Escape.isNumeric (octet '\\') = false by decide⟩
  | case5 b c s _ _ ih =>
    obtain ⟨hnext, hrest⟩ := hasNumber_cons_eq_false.mp h
    obtain ⟨hplain, hhead⟩ := ih hrest
    exact ⟨hasNumber_cons_eq_false.mpr ⟨fun heq => hhead (hnext heq), hplain⟩, id⟩

/-! ### Contents and values -/

namespace IsDirect

theorem part {w s : Bytes} (hs : IsDirect s) (h : Bytes.IsPart w s) : IsDirect w := by
  refine ⟨h.valid hs.valid, Bool.eq_false_iff.mpr fun hw => ?_⟩
  obtain ⟨c, hc, hinner⟩ := hasNumber_iff.mp hw
  have hnumber := hasNumber_iff.mpr ⟨c, hc, hinner.trans h.inner⟩
  rw [hs.numberless] at hnumber
  exact absurd hnumber (by simp)

/-- **The content of a literal without numbers** is well-formed and without numbers. -/
theorem content {l : Bytes} (h : IsDirect l) : IsDirect (content l) := by
  cases l with
  | nil => exact h
  | cons q s =>
    rw [Quoted.content]
    split
    swap
    · exact h
    rename_i hquoted
    rw [Bool.and_eq_true, beq_iff_eq] at hquoted
    have hq : q.toNat < 0x80 := by
      have hquote := hquoted.1
      rw [isQuote, Bool.or_eq_true, beq_iff_eq, beq_iff_eq] at hquote
      rcases hquote with rfl | rfl <;> decide
    have hs : IsDirect s := h.part (Bytes.isPart_tail hq s)
    split
    · rename_i t ht
      split at ht
      · exact (isDirect_of_strict? ht hs).1
      · exact absurd ht (by simp)
    · have hbody : IsDirect s.dropLast := hs.part (Bytes.isPart_dropLast hq hquoted.2)
      exact ⟨(isValid_plain hq [] s.dropLast).trans hbody.valid,
        (hasNumber_plain hquoted.1 hbody.numberless).1⟩

/-- A value is a part or the content of one. -/
theorem value {s : Bytes} (h : IsDirect s) : IsDirect (value s) := by
  have htrim : IsDirect s.trim := h.part (Bytes.isPart_trim s)
  rw [Quoted.value]
  dsimp only
  split
  · exact htrim.content
  · exact htrim

end IsDirect

end Quoted

end LiveMarkup
