import LiveMarkup.Proofs.Text.Utf8
import LiveMarkup.Text.Quoted

/-!
# Literals are read back

`LiveMarkup.Quoted.literal` puts a text in quotes with a backslash in front of every quote and every
backslash, and nothing else escaped. Where a literal ends is decided octet by octet, so it is found
again whatever the text is (`LiveMarkup.Quoted.take?_literal`). What it means is decided character
by character, and for a well-formed text it is the text (`LiveMarkup.Quoted.content_literal`),
whichever of the two quotes is used. A line feed in the text makes the strict reading fail, but then
the plain one gives the same answer: where the strict reading succeeds it is right
(`LiveMarkup.Quoted.strict?_escapeOnly_cases`), and the plain one always is
(`LiveMarkup.Quoted.plain_escapeOnly`).
-/

namespace LiveMarkup

namespace Quoted

/-! ### Where a literal ends -/

@[simp] theorem escapeOnly_nil (q : UInt8) : escapeOnly q [] = [] := rfl

theorem escapeOnly_cons (q b : UInt8) (t : Bytes) :
    escapeOnly q (b :: t) =
      (if b = q ∨ b = octet '\\' then [octet '\\', b] else [b]) ++ escapeOnly q t := rfl

theorem escapeOnly_append (q : UInt8) (s t : Bytes) :
    escapeOnly q (s ++ t) = escapeOnly q s ++ escapeOnly q t := List.flatMap_append

section Closing

variable {q : UInt8}

theorem closing?_self (hq : q ≠ octet '\\') (r : Bytes) : closing? q (q :: r) = some ([q], r) := by
  cases r with
  | nil => rw [closing?, if_pos ⟨hq, rfl⟩]
  | cons c s => rw [closing?, if_neg hq, if_pos rfl]

theorem closing?_escaped (b : UInt8) (r : Bytes) :
    closing? q (octet '\\' :: b :: r) =
      (closing? q r).map fun y => (octet '\\' :: b :: y.1, y.2) := by
  rw [closing?, if_pos rfl]

/-- An octet that is neither the quote nor a backslash is passed over. -/
theorem closing?_other {b : UInt8} (hb : b ≠ octet '\\') (hbq : b ≠ q) (r : Bytes) :
    closing? q (b :: r) = (closing? q r).map fun y => (b :: y.1, y.2) := by
  cases r with
  | nil =>
    have hnone : closing? q [b] = none := by rw [closing?, if_neg fun hand => hbq hand.2]
    rw [hnone]
    rfl
  | cons c s => rw [closing?, if_neg hb, if_neg hbq]

/-- **The quote that ends a literal is found.** -/
theorem closing?_escapeOnly (hq : q ≠ octet '\\') (t r : Bytes) :
    closing? q (escapeOnly q t ++ q :: r) = some (escapeOnly q t ++ [q], r) := by
  induction t with
  | nil => exact closing?_self hq r
  | cons b t ih =>
    rw [escapeOnly_cons]
    split
    · rw [List.append_assoc, List.cons_append, List.singleton_append, closing?_escaped, ih]
      rfl
    · rename_i hb
      rw [not_or] at hb
      rw [List.append_assoc, List.singleton_append, closing?_other hb.2 hb.1, ih]
      rfl

/-- **A literal is found again** in front of anything, whatever its text is. -/
theorem take?_literal (hq : q ≠ octet '\\') (t r : Bytes) :
    take? (literal q t ++ r) = some (literal q t, r) := by
  rw [literal, List.cons_append, List.append_assoc, List.singleton_append, take?,
    closing?_escapeOnly hq, Option.map_some]

end Closing

/-! ### The strict reading -/

section Strict

variable {s : Bytes} {c : Char}

/-- Escaping leaves a character alone, if it is neither the quote nor a backslash. -/
theorem escapeOnly_encode (hquote : c ≠ '"') (hslash : c ≠ '\\') :
    escapeOnly (octet '"') (Utf8.encode c) = Utf8.encode c := by
  have hother : ∀ b ∈ Utf8.encode c, ¬(b = octet '"' ∨ b = octet '\\') := by
    rintro b hb (rfl | rfl)
    · exact hquote (Utf8.eq_of_octet_mem_encode (by decide) hb)
    · exact hslash (Utf8.eq_of_octet_mem_encode (by decide) hb)
  revert hother
  generalize Utf8.encode c = t
  intro hother
  induction t with
  | nil => rfl
  | cons b t ih =>
    rw [List.forall_mem_cons] at hother
    rw [escapeOnly_cons, if_neg hother.1, ih hother.2]
    rfl

theorem strict?_quote : strict? (octet '"') [octet '"'] = some [] := by
  rw [strict?, if_pos rfl]
  rfl

/-- An escaped quote or backslash stands for itself. -/
theorem strict?_escaped {b : UInt8} (hb : b = octet '"' ∨ b = octet '\\') (s : Bytes) :
    strict? (octet '"') (octet '\\' :: b :: s) =
      (strict? (octet '"') s).map ([b] ++ ·) := by
  have hescape : escape? (octet '"') (b :: s) = some ([b], s) := by
    rcases hb with rfl | rfl <;> rfl
  rw [strict?.eq_def]
  dsimp only
  rw [if_neg (by decide), if_neg (by decide), if_pos rfl]
  split
  · rename_i hnone
    rw [hescape] at hnone
    exact absurd hnone (by simp)
  · rename_i o t hsome
    rw [hescape] at hsome
    obtain ⟨rfl, rfl⟩ : [b] = o ∧ s = t := by simpa using hsome
    rfl

/-- Any other character but a line feed stands for itself. -/
theorem strict?_encode (hquote : c ≠ '"') (hslash : c ≠ '\\') (hfeed : c ≠ '\n') (s : Bytes) :
    strict? (octet '"') (Utf8.encode c ++ s) =
      (strict? (octet '"') s).map (Utf8.encode c ++ ·) := by
  have huncons := Utf8.uncons?_encode c s
  have hne (d : Char) (hd : d.toNat < 0x80) (hcd : c ≠ d) : octet d ∉ Utf8.encode c :=
    fun hmem => hcd (Utf8.eq_of_octet_mem_encode hd hmem)
  have hquote' := hne '"' (by decide) hquote
  have hslash' := hne '\\' (by decide) hslash
  have hfeed' := hne '\n' (by decide) hfeed
  have hnil := Utf8.encode_ne_nil c
  revert huncons hquote' hslash' hfeed' hnil
  cases hc : Utf8.encode c with
  | nil => exact fun _ _ _ _ hnil => absurd rfl hnil
  | cons b r =>
    intro huncons hquote' hslash' hfeed' _
    have hfirst {d : UInt8} (hd : d ∉ b :: r) : b ≠ d := fun hbd => hd (hbd ▸ List.mem_cons_self)
    rw [List.cons_append] at huncons
    rw [List.cons_append, strict?.eq_def]
    dsimp only
    rw [if_neg (hfirst hquote'), if_neg (hfirst hfeed'), if_neg (hfirst hslash')]
    split
    · rename_i hnone
      rw [huncons] at hnone
      exact absurd hnone (by simp)
    · rename_i c' t hsome
      rw [huncons] at hsome
      obtain ⟨rfl, rfl⟩ : some c = c' ∧ s = t := by simpa using hsome
      rw [Option.getD_some, hc]

/-- **A character is read back** from its escaped form, unless it is a line feed. -/
theorem strict?_escapeOnly_encode (hfeed : c ≠ '\n') (s : Bytes) :
    strict? (octet '"') (escapeOnly (octet '"') (Utf8.encode c) ++ s) =
      (strict? (octet '"') s).map (Utf8.encode c ++ ·) := by
  by_cases hspecial : c = '"' ∨ c = '\\'
  · have hescaped : ∃ b, (b = octet '"' ∨ b = octet '\\') ∧ Utf8.encode c = [b] ∧
        escapeOnly (octet '"') [b] = [octet '\\', b] := by
      rcases hspecial with rfl | rfl
      · exact ⟨octet '"', Or.inl rfl, rfl, rfl⟩
      · exact ⟨octet '\\', Or.inr rfl, rfl, rfl⟩
    obtain ⟨b, hb, hencode, hescape⟩ := hescaped
    rw [hencode, hescape, List.cons_append, List.singleton_append, strict?_escaped hb]
  · rw [not_or] at hspecial
    rw [escapeOnly_encode hspecial.1 hspecial.2, strict?_encode hspecial.1 hspecial.2 hfeed]

theorem strict?_feed (s : Bytes) : strict? (octet '"') (octet '\n' :: s) = none := by
  rw [strict?, if_neg (by decide), if_pos rfl]

/-- **Where the strict reading of an escaped text succeeds**, it gives the text. It fails at the
first line feed. -/
theorem strict?_escapeOnly_cases (cs : List Char) :
    strict? (octet '"') (escapeOnly (octet '"') (Utf8.encodeAll cs) ++ [octet '"']) = none ∨
    strict? (octet '"') (escapeOnly (octet '"') (Utf8.encodeAll cs) ++ [octet '"']) =
      some (Utf8.encodeAll cs) := by
  induction cs with
  | nil => exact Or.inr strict?_quote
  | cons c cs ih =>
    rw [Utf8.encodeAll_cons, escapeOnly_append, List.append_assoc]
    rcases eq_or_ne c '\n' with rfl | hfeed
    · exact Or.inl (strict?_feed _)
    · rw [strict?_escapeOnly_encode hfeed]
      rcases ih with hnone | hsome
      · exact Or.inl (by rw [hnone, Option.map_none])
      · exact Or.inr (by rw [hsome, Option.map_some])

end Strict

/-! ### The plain reading -/

section Plain

variable {q b : UInt8}

theorem plain_escaped (hb : b = q ∨ b = octet '\\') (s : Bytes) :
    plain q (octet '\\' :: b :: s) = b :: plain q s := by
  rw [plain]
  by_cases hq : b = q
  · rw [if_pos ⟨rfl, hq⟩, hq]
  · obtain rfl := hb.resolve_left hq
    rw [if_neg fun hand => hq hand.2, if_pos ⟨rfl, rfl⟩]

theorem plain_other (hb : b ≠ octet '\\') (s : Bytes) : plain q (b :: s) = b :: plain q s := by
  rcases s with - | ⟨c, s⟩
  · rfl
  · rw [plain, if_neg fun hand => hb hand.1, if_neg fun hand => hb hand.1]

/-- **The plain reading of an escaped text** is the text, whatever it is. -/
theorem plain_escapeOnly (q : UInt8) (t : Bytes) : plain q (escapeOnly q t) = t := by
  induction t with
  | nil => rfl
  | cons b t ih =>
    rw [escapeOnly_cons]
    split_ifs with hb
    · rw [List.cons_append, List.singleton_append, plain_escaped hb, ih]
    · rw [List.singleton_append, plain_other fun hslash => hb (Or.inr hslash), ih]

end Plain

/-! ### What a literal means -/

/-- **A literal of a well-formed text is well-formed.** -/
theorem isValid_literal {t : Bytes} (ht : Utf8.isValid t) :
    Utf8.isValid (literal (octet '"') t) := by
  have hquote : Utf8.isValid [octet '"'] := Utf8.isValid_of_ascii (by decide)
  refine Utf8.isValid_append hquote (Utf8.isValid_append ?_ hquote)
  obtain ⟨cs, rfl⟩ := Utf8.isValid_iff.mp ht
  induction cs with
  | nil => exact Utf8.isValid_of_ascii rfl
  | cons c cs ih =>
    rw [Utf8.encodeAll_cons, escapeOnly_append]
    refine Utf8.isValid_append ?_ (ih (Utf8.isValid_iff.mpr ⟨cs, rfl⟩))
    by_cases hspecial : c = '"' ∨ c = '\\'
    · rcases hspecial with rfl | rfl <;> exact Utf8.isValid_of_ascii (by decide)
    · rw [not_or] at hspecial
      rw [escapeOnly_encode hspecial.1 hspecial.2]
      exact Utf8.isValid_iff.mpr ⟨[c], by simp⟩

theorem notMem_literal {q b : UInt8} (hq : b ≠ q) (hslash : b ≠ octet '\\') {t : Bytes}
    (ht : b ∉ t) : b ∉ literal q t := by
  have hescape : b ∉ escapeOnly q t := by
    induction t with
    | nil => simp
    | cons c t ih =>
      rw [List.mem_cons, not_or] at ht
      rw [escapeOnly_cons, List.mem_append, not_or]
      refine ⟨?_, ih ht.2⟩
      split <;> simp [hslash, ht.1]
  simp [literal, hq, hescape]

/-- **The content of a literal is its text**, if that is well-formed. -/
theorem content_literal {q : UInt8} (hq : isQuote q) {t : Bytes} (ht : Utf8.isValid t) :
    content (literal q t) = t := by
  have hlast : (isQuote q && (escapeOnly q t ++ [q]).getLast? == some q) = true := by
    rw [hq, List.getLast?_concat]
    simp
  rw [literal, content, if_pos hlast]
  split
  · rename_i u hu
    split_ifs at hu with hdouble
    subst hdouble
    obtain ⟨cs, rfl⟩ := Utf8.isValid_iff.mp ht
    rcases strict?_escapeOnly_cases cs with hnone | hsome
    · exact absurd (hnone.symm.trans hu) (by simp)
    · exact Option.some.inj (hu.symm.trans hsome)
  · rw [List.dropLast_concat, plain_escapeOnly]

end Quoted

end LiveMarkup
