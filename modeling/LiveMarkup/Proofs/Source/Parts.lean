import LiveMarkup.Proofs.Source.Head
import LiveMarkup.Proofs.Text.Parts
import LiveMarkup.Proofs.Tree.Declarations

/-!
# The parts of a line

A line is taken apart at octets of ASCII: quotes, brackets, separators and the names between them.
So whatever is read off a line, up to the content of its literals, is a part of it in the sense of
`LiveMarkup.Bytes.IsPart`. This file has one lemma for each reader of a line: for tag lines and text
lines, for declarations of states, for style directives and their declarations, and for the values
of handlers.
-/

namespace LiveMarkup

open Bytes (IsPart isPart_after isPart_before isPart_dropLast isPart_dropWhile isPart_of_append
  isPart_right isPart_tail isPart_trim)

theorem toNat_lt_of_isNameOctet {b : UInt8} (h : isNameOctet b) : b.toNat < 0x80 := by
  have hrange := Print.toNat_of_isNameOctet h
  omega

theorem toNat_lt_of_isGapOctet {b : UInt8} (h : isGapOctet b) : b.toNat < 0x80 := by
  simp only [isGapOctet, Bool.or_eq_true, beq_iff_eq] at h
  rcases h with (((rfl | rfl) | rfl) | rfl) | rfl <;> decide

theorem toNat_lt_of_isPatternBlank {b : UInt8} (h : isPatternBlank b) : b.toNat < 0x80 := by
  simp only [isPatternBlank, Bool.or_eq_true, beq_iff_eq] at h
  rcases h with (((rfl | rfl) | rfl) | rfl) | rfl <;> decide

theorem toNat_lt_of_isQuote {b : UInt8} (h : Quoted.isQuote b) : b.toNat < 0x80 := by
  simp only [Quoted.isQuote, Bool.or_eq_true, beq_iff_eq] at h
  rcases h with rfl | rfl <;> decide

theorem isPart_skipGap (s : Bytes) : IsPart (skipGap s) s :=
  isPart_dropWhile (fun _ => toNat_lt_of_isGapOctet) s

theorem isPart_dropBlanks (s : Bytes) : IsPart (s.dropWhile isPatternBlank) s :=
  isPart_dropWhile (fun _ => toNat_lt_of_isPatternBlank) s

/-- What stands behind a name, blanks and a mark. -/
theorem isPart_afterName {s r t : Bytes} {b c : UInt8} (htrim : s.trim = b :: r)
    (hb : isNameOctet b) (hrest : (r.dropWhile isNameOctet).dropWhile isPatternBlank = c :: t)
    (hc : c.toNat < 0x80) : IsPart t s := by
  have hname : IsPart r s :=
    (isPart_tail (toNat_lt_of_isNameOctet hb) r).trans (htrim ▸ isPart_trim s)
  have hblanks : IsPart (c :: t) r := hrest ▸ (isPart_dropBlanks _).trans
    (isPart_dropWhile (fun _ => toNat_lt_of_isNameOctet) r)
  exact (isPart_tail hc t).trans (hblanks.trans hname)

/-! ### Literals -/

namespace Quoted

/-- A literal and what follows it are parts. -/
theorem isPart_of_take? {s l r : Bytes} (hquote : s.head?.any isQuote)
    (h : take? s = some (l, r)) : IsPart l s ∧ IsPart r s := by
  cases s with
  | nil => exact absurd h (by simp [take?])
  | cons q s =>
    obtain ⟨⟨l', r'⟩, hclose, heq⟩ := Option.map_eq_some_iff.mp h
    obtain ⟨rfl, rfl⟩ : q :: l' = l ∧ r' = r := by simpa using heq
    obtain ⟨rfl, hlast⟩ := eq_of_closing? hclose
    have hq : q.toNat < 0x80 := toNat_lt_of_isQuote (by simpa using hquote)
    -- The literal ends in its quote, and behind it the line can be cut.
    obtain ⟨body, rfl⟩ := List.getLast?_eq_some_iff.mp hlast
    have hcut : Utf8.IsCut (q :: (body ++ [q])) r' := Utf8.isCut_concat (q :: body) hq r'
    exact ⟨Bytes.isPart_left hcut, isPart_right hcut⟩

end Quoted

theorem isPart_of_takeText? {s r : Bytes} {text : Option Bytes}
    (h : takeText? s = some (text, r)) :
    IsPart r s ∧ ∀ x ∈ text, ∃ l, IsPart l s ∧ x = Quoted.content l := by
  rw [takeText?] at h
  split at h
  · rename_i hquote
    split at h
    · exact absurd h (by simp)
    · rename_i l r' htake
      obtain ⟨rfl, rfl⟩ : some (Quoted.content l) = text ∧ skipGap r' = r := by simpa using h
      obtain ⟨hl, hr⟩ := Quoted.isPart_of_take? hquote htake
      refine ⟨(isPart_skipGap r').trans hr, ?_⟩
      rintro x hx
      exact ⟨l, hl, (Option.some.inj hx).symm⟩
  · obtain ⟨rfl, rfl⟩ : none = text ∧ s = r := by simpa using h
    exact ⟨IsPart.refl s, by simp⟩

/-! ### Tag lines and text lines -/

namespace AttributeList

/-- **An attribute list is taken off as it is written**, with its closing parenthesis if it has one.
-/
theorem eq_of_take {s r : Bytes} {list : AttributeList} (h : take s = (some list, r)) :
    s = octet '(' :: (list.text ++ octet ')' :: r) ∨ s = octet '(' :: list.text ∧ r = [] := by
  cases s with
  | nil => exact absurd h (by simp [take])
  | cons b s =>
    rw [take] at h
    split at h
    swap
    · exact absurd h (by simp)
    rename_i hb
    subst hb
    have hfirst : Nesting.close? (octet '(' :: s) =
        (Nesting.closeFrom? (Nesting.level 1) s).map fun y => (octet '(' :: y.1, y.2) := rfl
    rw [hfirst] at h
    cases hs : Nesting.closeFrom? (Nesting.level 1) s with
    | none =>
      obtain ⟨rfl, rfl⟩ : (⟨s, false⟩ : AttributeList) = list ∧ [] = r := by simpa [hs] using h
      exact Or.inr ⟨rfl, rfl⟩
    | some y =>
      obtain ⟨rfl, rfl⟩ : (⟨y.1, true⟩ : AttributeList) = list ∧ y.2 = r := by simpa [hs] using h
      exact Or.inl (congrArg _ (Nesting.eq_of_closeFrom? (n := Nesting.level 1) (by decide) hs))

/-- An attribute list and what follows it are parts. -/
theorem isPart_of_take (s : Bytes) :
    IsPart (take s).2 s ∧ ∀ list ∈ (take s).1, IsPart list.text s := by
  cases htake : take s with
  | mk list? r =>
    cases list? with
    | none =>
      refine ⟨?_, by simp⟩
      cases s with
      | nil =>
        obtain rfl : [] = r := by simpa [take] using htake
        exact IsPart.refl []
      | cons b s =>
        rw [take] at htake
        split at htake
        · split at htake <;> exact absurd htake (by simp)
        · obtain rfl : b :: s = r := by simpa using htake
          exact IsPart.refl _
    | some list =>
      have hopen (t : Bytes) : IsPart t (octet '(' :: t) := isPart_tail (by decide) t
      rcases eq_of_take htake with rfl | ⟨rfl, rfl⟩
      · refine ⟨(isPart_after (by decide) _ r).trans (hopen _), ?_⟩
        rintro l hl
        obtain rfl := Option.some.inj hl
        exact (isPart_before (by decide) _ r).trans (hopen _)
      · refine ⟨Bytes.isPart_nil _, ?_⟩
        rintro l hl
        obtain rfl := Option.some.inj hl
        exact hopen _

end AttributeList

namespace TagLine

variable {s : Bytes} {t : TagLine} (h : parse? s = some t)

include h

/-- The head of a tag line is ASCII. -/
theorem toNat_lt_of_mem_head : ∀ b ∈ t.head, b.toNat < 0x80 := by
  intro b hb
  rw [head, List.mem_append, List.mem_flatMap] at hb
  rcases hb with hb | ⟨sh, hsh, hb⟩
  · have hname := List.all_eq_true.mp (isName_of_isTag (isTag_of_parse? h)) b hb
    exact toNat_lt_of_isNameOctet hname
  · have hname := (isName_of_mem_shorthands h sh hsh).2
    have hmark : b = octet '.' ∨ b = octet '#' ∨ b ∈ sh.name := by
      cases sh with
      | className n =>
        rcases List.mem_cons.mp hb with hb | hb
        · exact Or.inl hb
        · exact Or.inr (Or.inr hb)
      | identifier n =>
        rcases List.mem_cons.mp hb with hb | hb
        · exact Or.inr (Or.inl hb)
        · exact Or.inr (Or.inr hb)
    rcases hmark with rfl | rfl | hb
    · decide
    · decide
    · exact toNat_lt_of_isNameOctet (List.all_eq_true.mp hname b hb)

/-- **The list of a tag line is a part of it**, and its text is the content of one. -/
theorem isPart_of_parse? : (∀ list ∈ t.attributes, IsPart list.text s) ∧
    ∀ x ∈ t.text, ∃ l, IsPart l s ∧ x = Quoted.content l := by
  have hhead := toNat_lt_of_mem_head h
  obtain ⟨u, r, hfront, -, rfl⟩ := parse?_eq_some_iff.mp h
  cases hfront with
  | parts htag hshorthands htext =>
    rename_i r₁ r₂ shorthands text
    have hs : s = (takeTag s).1 ++ shorthands.flatMap Shorthand.text ++ r₁ := by
      rw [List.append_assoc, ← (Shorthand.eq_of_takeAll? hshorthands).1]
      exact (takeWord_append isLowerOctet isTagOctet s).symm
    have hrest : IsPart r₁ s := by
      have hpart := isPart_of_append (p := fun b => decide (b.toNat < 0x80))
        (fun _ hb => of_decide_eq_true hb)
        (List.all_eq_true.mpr fun b hb => decide_eq_true (hhead b hb)) r₁
      rwa [head, ← hs] at hpart
    obtain ⟨hafter, hlist⟩ := AttributeList.isPart_of_take r₁
    refine ⟨fun list hl => (hlist list hl).trans hrest, fun x hx => ?_⟩
    obtain ⟨l, hl, rfl⟩ := (isPart_of_takeText? htext).2 x hx
    exact ⟨l, hl.trans ((isPart_skipGap _).trans (hafter.trans hrest)), rfl⟩

end TagLine

/-- The text of a text line is the content of a part of it. -/
theorem TextLine.isPart_of_parse? {s : Bytes} {t : TextLine} (hquote : s.head?.any Quoted.isQuote)
    (h : parse? s = some t) : ∃ l, IsPart l s ∧ t.text = Quoted.content l := by
  rw [parse?] at h
  split at h
  · exact absurd h (by simp)
  rename_i l r htake
  dsimp only at h
  split at h
  · obtain rfl := Option.some.inj h
    exact ⟨l, (Quoted.isPart_of_take? hquote htake).1, rfl⟩
  · exact absurd h (by simp)

/-! ### Declarations of states -/

/-- **The name and the initializer of a declaration are parts of its line.** -/
theorem StateLine.isPart_of_parse? {s : Bytes} {d : StateLine} (h : parse? s = some d) :
    IsPart d.initializer s ∧ d.name <:+: s := by
  obtain ⟨⟨gap, before, after, hs, -, hblanks⟩, hname, -⟩ := eq_of_parse? h
  constructor
  · rw [hs]
    refine isPart_of_append (p := fun b => decide (b.toNat < 0x80))
      (fun _ hb => of_decide_eq_true hb) ?_ d.initializer
    have hall {w : Bytes} (hw : w.all isPatternBlank) : w.all fun b => decide (b.toNat < 0x80) :=
      List.all_eq_true.mpr fun b hb =>
        decide_eq_true (toNat_lt_of_isPatternBlank (List.all_eq_true.mp hw b hb))
    have hident : d.name.all fun b => decide (b.toNat < 0x80) := by
      refine List.all_eq_true.mpr fun b hb => decide_eq_true ?_
      refine forall_mem_of_isWord (P := fun b => b.toNat < 0x80) (fun b hb => ?_) (fun b hb => ?_)
        hname b hb
      · refine toNat_lt_of_isNameOctet ?_
        rcases Bool.or_eq_true_iff.mp hb with hb | hb <;> simp [isNameOctet, isIdentOctet, hb]
      · exact toNat_lt_of_isNameOctet (by rw [isNameOctet, hb, Bool.true_or])
    rw [List.all_append, List.all_append, Bool.and_eq_true, Bool.and_eq_true] at hblanks
    simp only [List.all_append, Bool.and_eq_true]
    exact ⟨⟨⟨⟨⟨by decide, hall hblanks.1.1⟩, hident⟩, hall hblanks.1.2⟩, by decide⟩,
      hall hblanks.2⟩
  · refine ⟨utf8 "state" ++ gap, before ++ utf8 "=" ++ after ++ d.initializer, ?_⟩
    rw [hs]
    simp only [List.append_assoc]

/-! ### Styles -/

namespace Style

/-- Only blanks and a semicolon are dropped from the end of a value. -/
theorem isPart_dropTerminator (s : Bytes) : IsPart (dropTerminator s) s := by
  rw [dropTerminator]
  split
  · rename_i h
    exact (Bytes.isPart_dropWhileEnd (fun _ => toNat_lt_of_isPatternBlank) s.dropLast).trans
      (isPart_dropLast (by decide) h)
  · exact IsPart.refl s

/-- **The value of a declaration is read off a part of it** and can be stored; its name is put into
the form of property names. Between them there is a colon. -/
theorem eq_of_parse? {s : Bytes} {p : StyleProperty} (h : parse? s = some p) :
    octet ':' ∈ s ∧ ∃ name w, IsPart w s ∧ isStorable (Quoted.value w) ∧
      p = ⟨propertyName name, Quoted.value w⟩ := by
  rw [parse?] at h
  split at h
  · exact absurd h (by simp)
  rename_i b r htrim
  split at h
  swap
  · exact absurd h (by simp)
  rename_i hb
  split at h
  · exact absurd h (by simp)
  rename_i c t hrest
  dsimp only at h
  split at h
  swap
  · exact absurd h (by simp)
  rename_i hcond
  constructor
  · have hmem : c ∈ (r.dropWhile isNameOctet).dropWhile isPatternBlank :=
      hrest ▸ List.mem_cons_self
    rw [← hcond.1]
    refine Bytes.mem_of_mem_trim ?_
    rw [htrim]
    exact List.mem_cons_of_mem b (List.dropWhile_subset _ (List.dropWhile_subset _ hmem))
  refine ⟨_, _, ?_, hcond.2.2, (Option.some.inj h).symm⟩
  have hb : isNameOctet b := by
    simp only [isNameStart, Bool.or_eq_true] at hb
    rcases hb with (hb | hb) | hb <;> simp [isNameOctet, isIdentOctet, hb]
  have ht : IsPart t s := isPart_afterName htrim hb hrest (by rw [hcond.1]; decide)
  exact (isPart_dropTerminator _).trans ((isPart_dropBlanks t).trans ht)

/-- **The declarations of a list are declarations of its parts.** -/
theorem exists_parse?_of_mem_parseList {s : Bytes} {p : StyleProperty} (h : p ∈ (parseList s).1) :
    ∃ d ∈ Nesting.split (octet ';') s, parse? d = some p := by
  obtain ⟨y, hy, hp⟩ := List.mem_filterMap.mp h
  obtain ⟨d, hd, hdy⟩ := List.mem_filterMap.mp hy
  refine ⟨d, hd, ?_⟩
  split at hdy
  · exact absurd hdy (by simp)
  · split at hdy
    · rename_i q hq
      obtain rfl := Option.some.inj hdy
      rw [hq]
      exact hp
    · obtain rfl := Option.some.inj hdy
      exact absurd hp (by simp)

/-- The declarations of a list, as those of its parts. -/
theorem eq_of_mem_parseList {s : Bytes} {p : StyleProperty} (h : p ∈ (parseList s).1) :
    octet ':' ∈ s ∧ ∃ name w, IsPart w s ∧ isStorable (Quoted.value w) ∧
      p = ⟨propertyName name, Quoted.value w⟩ := by
  obtain ⟨d, hd, hp⟩ := exists_parse?_of_mem_parseList h
  have hpart : IsPart d s := Nesting.isPart_of_mem_split (by decide) hd
  obtain ⟨hcolon, name, w, hw, hstorable, rfl⟩ := eq_of_parse? hp
  exact ⟨hpart.inner.subset hcolon, name, w, hw.trans hpart, hstorable, rfl⟩

/-- The declarations of a directive are a part of its line. -/
theorem Directive.isPart_of_parse? {s d : Bytes} (h : parse? s = some (.inline d)) :
    IsPart d s := by
  rw [parse?] at h
  split at h
  · exact absurd h (by simp)
  rename_i r hr
  split at h
  · exact absurd h (by simp)
  rename_i b t hrest
  split at h
  swap
  · exact absurd h (by simp)
  rename_i hb
  split at h
  · exact absurd h (by simp)
  split at h
  swap
  · exact absurd h (by simp)
  rename_i hlast
  obtain rfl : t.dropLast = d := by simpa using h
  have hr' : IsPart r s := by
    rw [Bytes.eq_of_after? hr]
    exact isPart_of_append (p := fun b => decide (b.toNat < 0x80))
      (fun _ hb => of_decide_eq_true hb) (by decide) r
  have ht : IsPart t (b :: t) := isPart_tail (by rw [hb]; decide) t
  exact (isPart_dropLast (by decide) hlast.1).trans
    (ht.trans ((hrest ▸ isPart_dropBlanks r).trans hr'))

end Style

/-! ### Handlers -/

/-- The body of a handler is a part of the value. -/
theorem EventValue.isPart_of_parse? {s : Bytes} {v : EventValue} (h : parse? s = some v) :
    IsPart v.body s := by
  rw [parse?] at h
  split at h
  · exact absurd h (by simp)
  rename_i b r htrim
  split at h
  swap
  · exact absurd h (by simp)
  rename_i hb
  split at h
  · exact absurd h (by simp)
  rename_i c t hrest
  split at h
  swap
  · exact absurd h (by simp)
  rename_i hcond
  obtain rfl := Option.some.inj h
  have hb : isNameOctet b := by simp [isNameOctet, isIdentOctet, hb]
  have ht : IsPart t s := isPart_afterName htrim hb hrest (by rw [hcond.1]; decide)
  exact (isPart_dropLast (by decide) hcond.2).trans ht

/-- The text of a statement is a part of the body it was read from. -/
theorem Statement.isPart_ofBody (body : Bytes) : IsPart (ofBody body).text body := by
  have hdrop : IsPart (dropSemicolon body.trim) body.trim := by
    rw [dropSemicolon]
    split
    · rename_i h
      exact isPart_dropLast (by decide) h
    · exact IsPart.refl _
  exact (isPart_trim _).trans (hdrop.trans (isPart_trim body))

end LiveMarkup
