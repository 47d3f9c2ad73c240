import LiveMarkup.Proofs.Source.Head
import LiveMarkup.Proofs.Source.Parentheses

/-!
# The grammar of tag lines

A tag line as it is written, with all its gaps, is a `LiveMarkup.TagLine.Spelling`: a tag,
shorthands, and then a tail, a closed attribute list with a tail behind it, or a list that is not
closed. A tail (`LiveMarkup.TagLine.Tail`) is a gap, a literal, a binding and a block mark. A
spelling carries the proofs that its words have their forms, that its list ends at the first
parenthesis that balances it, and that its head cannot go on into what follows.

The tag lines are the texts of the spellings, and their parts are those of the spelling
(`LiveMarkup.TagLine.parse?_iff_spelling`): no octet of a line is left out or read twice.
-/

namespace LiveMarkup

/-- White space between the parts of a line. -/
abbrev Gap := { s : Bytes // s.all isGapOctet }

/-- A name that a binding may have. -/
abbrev Binding := { s : Bytes // isBinding s }

/-- The text of a part that may be missing and of the gap behind it. -/
def followed {α : Type} (text : α → Bytes) : Option (α × Gap) → Bytes
  | none => []
  | some (a, gap) => text a ++ gap.1

/-! ### Gaps -/

section Gaps

variable {s : Bytes}

/-- A gap is skipped whole. -/
theorem skipGap_append (gap : Gap) (h : s.head?.any isGapOctet = false) :
    skipGap (gap.1 ++ s) = s :=
  dropWhile_append_of_boundary (List.all_eq_true.mp gap.2) h

theorem skipGap_gap (gap : Gap) : skipGap gap.1 = [] :=
  List.dropWhile_eq_nil_iff.mpr (List.all_eq_true.mp gap.2)

/-- What follows the octets of a class is bounded from them. -/
theorem any_head?_dropWhile (p : UInt8 → Bool) (s : Bytes) :
    (s.dropWhile p).head?.any p = false := by
  have h := List.head?_dropWhile_not p s
  cases hhead : (s.dropWhile p).head? with
  | none => rfl
  | some b => rwa [hhead] at h

theorem head?_takeWord {first more : UInt8 → Bool} (h : (takeWord first more s).1 ≠ []) :
    (takeWord first more s).2.head?.any more = false := by
  cases s with
  | nil => rfl
  | cons b s =>
    rw [takeWord] at h ⊢
    split
    · exact any_head?_dropWhile more s
    · rename_i hb
      rw [if_neg hb] at h
      exact absurd rfl h

/-- What is skipped is a gap. -/
theorem exists_gap (s : Bytes) : ∃ gap : Gap, s = gap.1 ++ skipGap s :=
  ⟨⟨s.takeWhile isGapOctet, List.all_takeWhile⟩, (List.takeWhile_append_dropWhile).symm⟩

end Gaps

namespace TagLine

/-! ### Spellings -/

/-- A block mark as it is written. -/
inductive BlockMark
  | none
  /-- An opening brace. -/
  | opened (behind : Gap)
  /-- An opening brace that is closed at once. -/
  | empty (inside behind : Gap)

namespace BlockMark

def text : BlockMark → Bytes
  | none => []
  | opened behind => 0x7b :: behind.1
  | empty inside behind => 0x7b :: (inside.1 ++ 0x7d :: behind.1)

/-- Whether the mark opens a block. -/
def block : BlockMark → Bool
  | none => false
  | opened _ => true
  | empty _ _ => false

end BlockMark

/-- What may follow the attribute list: a literal, a binding and a block mark. -/
structure Tail where
  before : Gap
  quotation : Option (Quotation × Gap)
  binding : Option (Binding × Gap)
  mark : BlockMark

namespace Tail

/-- The text of a tail behind its first gap. -/
def core (t : Tail) : Bytes :=
  followed Quotation.text t.quotation ++ (followed Subtype.val t.binding ++ t.mark.text)

def text (t : Tail) : Bytes := t.before.1 ++ t.core

end Tail

/-- What may follow the head of a tag line. -/
inductive Rest
  | bare (tail : Tail)
  /-- A list that ends at the first parenthesis that balances it. -/
  | closed (list : Bytes) (never : Nesting.NeverBalanced (octet '(' :: list))
    (balanced : Nesting.ParensBalanced (octet '(' :: (list ++ [octet ')']))) (tail : Tail)
  /-- A list that nothing balances. -/
  | unclosed (list : Bytes) (never : Nesting.NeverBalanced (octet '(' :: list))

namespace Rest

def text : Rest → Bytes
  | bare tail => tail.text
  | closed list _ _ tail => octet '(' :: (list ++ octet ')' :: tail.text)
  | unclosed list _ => octet '(' :: list

def attributes : Rest → Option AttributeList
  | bare _ => none
  | closed list _ _ _ => some ⟨list, true⟩
  | unclosed list _ => some ⟨list, false⟩

/-- What follows the list, if it is closed or missing. -/
def tail? : Rest → Option Tail
  | bare tail => some tail
  | closed _ _ _ tail => some tail
  | unclosed _ _ => none

end Rest

/-- **A tag line as it is written.** -/
structure Spelling where
  tag : Bytes
  isTag : isTag tag
  shorthands : List Shorthand
  isName : ∀ sh ∈ shorthands, sh.name ≠ [] ∧ isName sh.name
  rest : Rest
  /-- What follows the head cannot go on with its last word. -/
  boundary : rest.text.head?.any (if shorthands.isEmpty then isTagOctet else isNameOctet) = false

namespace Spelling

/-- The texts of the shorthands, marks included. -/
def segments (w : Spelling) : List Bytes := w.shorthands.map Shorthand.text

def head (w : Spelling) : Bytes := w.tag ++ w.segments.flatten

def text (w : Spelling) : Bytes := w.head ++ w.rest.text

/-- The parts of the line. -/
def line (w : Spelling) : TagLine where
  tag := w.tag
  shorthands := w.shorthands
  attributes := w.rest.attributes
  text := w.rest.tail?.bind fun t => t.quotation.map fun q => Quoted.content q.1.text
  binding := w.rest.tail?.bind fun t => t.binding.map fun x => x.1.1
  block := w.rest.tail?.any fun t => t.mark.block

end Spelling

/-! ### What the parts start with -/

/-- What starts with an octet of one class does not start with one of another. -/
theorem head?_any_of_all {p q : UInt8 → Bool} {s : Bytes} (hs : s.head?.all q)
    (hdisjoint : ∀ b, p b → q b = false) : s.head?.any p = false := by
  cases s with
  | nil => rfl
  | cons b s =>
    refine Bool.eq_false_iff.mpr fun hp => ?_
    have hq : q b := by simpa using hs
    rw [hdisjoint b (by simpa using hp)] at hq
    exact absurd hq (by simp)

/-- A gap in front of something starts with a gap or as that does. -/
theorem head?_gap_append {q : UInt8 → Bool} {s : Bytes} (gap : Gap) (hs : s.head?.all q) :
    (gap.1 ++ s).head?.all fun b => isGapOctet b || q b := by
  obtain ⟨gap, hgap⟩ := gap
  cases gap with
  | nil =>
    rw [Option.all_eq_true] at hs ⊢
    intro b hb
    rw [hs b hb, Bool.or_true]
  | cons b gap =>
    rw [List.all_cons, Bool.and_eq_true] at hgap
    simp [hgap.1]

/-- The first octet of a binding or a block mark. -/
def isEndStart (b : UInt8) : Bool := isBindingStart b || b == 0x7b

/-- The first octet of a literal, a binding or a block mark. -/
def isCoreStart (b : UInt8) : Bool := Quoted.isQuote b || isEndStart b

/-- The first octet of a tail. -/
def isTailStart (b : UInt8) : Bool := isGapOctet b || isCoreStart b

theorem isCoreStart_of_isGapOctet {b : UInt8} (h : isGapOctet b) : isCoreStart b = false := by
  simp only [isGapOctet, Bool.or_eq_true, beq_iff_eq] at h
  rcases h with (((rfl | rfl) | rfl) | rfl) | rfl <;> decide

theorem isEndStart_of_isQuote {b : UInt8} (h : Quoted.isQuote b) : isEndStart b = false := by
  simp only [Quoted.isQuote, Bool.or_eq_true, beq_iff_eq] at h
  rcases h with rfl | rfl <;> decide

/-! ### Block marks -/

namespace BlockMark

theorem head?_text (m : BlockMark) : m.text.head?.all (· == 0x7b) := by
  cases m <;> rfl

theorem takeBlock_text (m : BlockMark) : takeBlock m.text = (m.block, []) := by
  cases m with
  | none => rfl
  | opened behind =>
    rw [text, takeBlock, if_pos rfl, skipGap_gap]
    rfl
  | empty inside behind =>
    rw [text, takeBlock, if_pos rfl, skipGap_append inside (by rfl)]
    dsimp only
    rw [if_pos rfl, skipGap_gap]
    rfl

/-- **What is taken for a block mark is one**, if nothing follows it. -/
theorem exists_of_takeBlock {s : Bytes} (h : (takeBlock s).2 = []) :
    ∃ m : BlockMark, m.text = s ∧ m.block = (takeBlock s).1 := by
  cases s with
  | nil => exact ⟨none, rfl, rfl⟩
  | cons b s =>
    rw [takeBlock] at h ⊢
    split at h
    · rename_i hb
      subst hb
      rw [if_pos rfl]
      obtain ⟨gap, hgap⟩ := exists_gap s
      cases hs : skipGap s with
      | nil =>
        rw [hs, List.append_nil] at hgap
        exact ⟨opened gap, by rw [text, hgap], rfl⟩
      | cons c t =>
        rw [hs] at h hgap
        dsimp only at h ⊢
        split at h
        · rename_i hc
          subst hc
          obtain ⟨behind, hbehind⟩ := exists_gap t
          rw [show skipGap t = [] from h, List.append_nil] at hbehind
          exact ⟨empty gap behind, by rw [text, hgap, hbehind], rfl⟩
        · exact absurd h (by simp)
    · exact absurd h (by simp)

end BlockMark

/-! ### Tails -/

namespace Tail

variable (t : Tail)

theorem head?_binding_mark :
    (followed Subtype.val t.binding ++ t.mark.text).head?.all isEndStart := by
  cases t.binding with
  | none =>
    have hmark := t.mark.head?_text
    rw [Option.all_eq_true] at hmark ⊢
    intro b hb
    rw [isEndStart, hmark b hb, Bool.or_true]
  | some x =>
    obtain ⟨⟨s, hs⟩, gap⟩ := x
    cases s with
    | nil => exact absurd hs (by simp [isBinding, isWord])
    | cons b s =>
      rw [isBinding, isWord, Bool.and_eq_true] at hs
      simp [followed, isEndStart, hs.1]

theorem head?_core : t.core.head?.all isCoreStart := by
  rw [core]
  cases t.quotation with
  | none =>
    have hend := t.head?_binding_mark
    rw [Option.all_eq_true] at hend ⊢
    intro b hb
    rw [isCoreStart, hend b hb, Bool.or_true]
  | some q => simp [followed, Quotation.text, isCoreStart, q.1.isQuote]

theorem head?_text : t.text.head?.all isTailStart := head?_gap_append t.before t.head?_core

theorem skipGap_text : skipGap t.text = t.core :=
  skipGap_append t.before (head?_any_of_all t.head?_core fun _ => isCoreStart_of_isGapOctet)

/-! What is taken off the text of a tail are its parts. -/

theorem takeBind_binding_mark : takeBind (followed Subtype.val t.binding ++ t.mark.text) =
    (t.binding.map fun x => x.1.1, t.mark.text) := by
  have hmark {p : UInt8 → Bool} (hp : p 0x7b = false) : t.mark.text.head?.any p = false := by
    refine head?_any_of_all t.mark.head?_text fun b hb => ?_
    refine beq_eq_false_iff_ne.mpr fun hbrace => ?_
    rw [hbrace, hp] at hb
    exact absurd hb (by simp)
  cases t.binding with
  | none => exact takeBind_of_head? (hmark (by decide))
  | some x =>
    have hstop : (x.2.1 ++ t.mark.text).head?.any isIdentOctet = false := by
      refine head?_any_of_all (head?_gap_append x.2 t.mark.head?_text) fun b hb => ?_
      refine Bool.eq_false_iff.mpr fun hgap => ?_
      rw [Bool.or_eq_true, isGapOctet] at hgap
      simp only [Bool.or_eq_true, beq_iff_eq] at hgap
      rcases hgap with ((((rfl | rfl) | rfl) | rfl) | rfl) | rfl <;> exact absurd hb (by decide)
    have hword : takeBinding (x.1.1 ++ (x.2.1 ++ t.mark.text)) = (x.1.1, x.2.1 ++ t.mark.text) :=
      takeWord_append_of_isWord x.1.2 hstop
    rw [followed, List.append_assoc, takeBind, hword]
    dsimp only
    rw [if_neg (by simpa using ne_nil_of_isWord x.1.2), skipGap_append x.2 (hmark (by decide))]
    rfl

theorem takeText?_core : takeText? t.core =
    some (t.quotation.map fun q => Quoted.content q.1.text,
      followed Subtype.val t.binding ++ t.mark.text) := by
  rw [core]
  cases t.quotation with
  | none =>
    exact takeText?_of_head?
      (head?_any_of_all t.head?_binding_mark fun _ => isEndStart_of_isQuote)
  | some q =>
    have hgap : (followed Subtype.val t.binding ++ t.mark.text).head?.any isGapOctet = false := by
      refine head?_any_of_all t.head?_binding_mark fun b hb => ?_
      have hcore := isCoreStart_of_isGapOctet hb
      rw [isCoreStart, Bool.or_eq_false_iff] at hcore
      exact hcore.2
    have hquote : (followed Quotation.text (some q) ++
        (followed Subtype.val t.binding ++ t.mark.text)).head?.any Quoted.isQuote := by
      simp [followed, Quotation.text, q.1.isQuote]
    rw [takeText?, if_pos hquote, followed, List.append_assoc, Quotation.take?_text_append]
    dsimp only
    rw [skipGap_append q.2 hgap]
    rfl

/-- What is taken for a quoted text is a literal with a gap behind it. -/
theorem exists_quotation {s r : Bytes} {text : Option Bytes} (h : takeText? s = some (text, r)) :
    ∃ q : Option (Quotation × Gap), s = followed Quotation.text q ++ r ∧
      (q.map fun q => Quoted.content q.1.text) = text := by
  rw [takeText?] at h
  split at h
  · rename_i hquote
    split at h
    · exact absurd h (by simp)
    · rename_i l r' htake
      obtain ⟨rfl, rfl⟩ : some (Quoted.content l) = text ∧ skipGap r' = r := by simpa using h
      obtain ⟨w, rfl, hw⟩ := Quotation.exists_of_take? hquote htake
      obtain ⟨gap, hgap⟩ := exists_gap r'
      refine ⟨some (w, gap), ?_, rfl⟩
      rw [hw, followed, List.append_assoc, ← hgap]
  · obtain ⟨rfl, rfl⟩ : none = text ∧ s = r := by simpa using h
    exact ⟨none, rfl, rfl⟩

/-- What is taken for a binding is one, with a gap behind it. -/
theorem exists_binding (s : Bytes) :
    ∃ x : Option (Binding × Gap), s = followed Subtype.val x ++ (takeBind s).2 ∧
      (x.map fun x => x.1.1) = (takeBind s).1 := by
  rw [takeBind]
  split
  · exact ⟨none, rfl, rfl⟩
  · rename_i hempty
    have hne : (takeBinding s).1 ≠ [] := by simpa using hempty
    obtain ⟨gap, hgap⟩ := exists_gap (takeBinding s).2
    refine ⟨some (⟨(takeBinding s).1, isWord_takeWord hne⟩, gap), ?_, rfl⟩
    rw [followed, List.append_assoc, ← hgap]
    exact (takeWord_append isBindingStart isIdentOctet s).symm

/-- **What is taken for the parts of a tail is a tail.** -/
theorem exists_of_takeText? {s r : Bytes} {text : Option Bytes}
    (htext : takeText? (skipGap s) = some (text, r)) (hblock : (takeBlock (takeBind r).2).2 = []) :
    ∃ t : Tail, t.text = s ∧ (t.quotation.map fun q => Quoted.content q.1.text) = text ∧
      (t.binding.map fun x => x.1.1) = (takeBind r).1 ∧
      t.mark.block = (takeBlock (takeBind r).2).1 := by
  obtain ⟨before, hbefore⟩ := exists_gap s
  obtain ⟨quotation, hquotation, hcontent⟩ := exists_quotation htext
  obtain ⟨binding, hbinding, hname⟩ := exists_binding r
  obtain ⟨mark, hmark, hopens⟩ := BlockMark.exists_of_takeBlock hblock
  refine ⟨⟨before, quotation, binding, mark⟩, ?_, hcontent, hname, hopens⟩
  rw [Tail.text, core, hmark, ← hbinding, ← hquotation, ← hbefore]

end Tail

/-! ### The head and the list -/

theorem Rest.head?_text (w : Rest) : w.text.head?.all fun b => b == octet '(' || isTailStart b := by
  have hopen (s : Bytes) :
      (octet '(' :: s).head?.all fun b => b == octet '(' || isTailStart b := rfl
  cases w with
  | bare tail =>
    have htail := tail.head?_text
    rw [Option.all_eq_true] at htail ⊢
    intro b hb
    rw [htail b hb, Bool.or_true]
  | closed list never balanced tail => exact hopen _
  | unclosed list never => exact hopen _

/-- What follows the list of a spelling. -/
def Rest.after (w : Rest) : Bytes := (w.tail?.map Tail.text).getD []

/-- **A list is taken off as it is written.** -/
theorem Rest.take_text (w : Rest) : AttributeList.take w.text = (w.attributes, w.after) := by
  cases w with
  | bare tail =>
    refine AttributeList.take_of_head? (head?_any_of_all tail.head?_text fun b hb => ?_)
    rw [beq_iff_eq.mp hb]
    decide
  | closed list never balanced tail =>
    have hclose : Nesting.closeFrom? (Nesting.level 1) (list ++ octet ')' :: tail.text) =
        some (list, tail.text) := Nesting.closeFrom?_level_one_iff.mpr ⟨rfl, never, balanced⟩
    rw [text, AttributeList.take_open, hclose]
    rfl
  | unclosed list never =>
    rw [text, AttributeList.take_open, Nesting.closeFrom?_level_one_eq_none_iff.mpr never]
    rfl

/-- **A tail is taken off as it is written.** -/
theorem Rest.take_after (w : Rest) : ∃ r m,
    takeText? (skipGap w.after) =
      some (w.tail?.bind fun t => t.quotation.map fun q => Quoted.content q.1.text, r) ∧
    takeBind r = (w.tail?.bind fun t => t.binding.map fun x => x.1.1, m) ∧
    takeBlock m = (w.tail?.any fun t => t.mark.block, []) := by
  have htail (t : Tail) : takeText? (skipGap t.text) =
      some (t.quotation.map fun q => Quoted.content q.1.text,
        followed Subtype.val t.binding ++ t.mark.text) := by
    rw [t.skipGap_text, t.takeText?_core]
  cases w with
  | bare t => exact ⟨_, _, htail t, t.takeBind_binding_mark, t.mark.takeBlock_text⟩
  | closed list never balanced t =>
    exact ⟨_, _, htail t, t.takeBind_binding_mark, t.mark.takeBlock_text⟩
  | unclosed list never => exact ⟨[], [], rfl, rfl, rfl⟩

/-- **What is taken for a list and a tail is one.** -/
theorem exists_rest {s r : Bytes} {text : Option Bytes}
    (htext : takeText? (skipGap (AttributeList.take s).2) = some (text, r))
    (hblock : (takeBlock (takeBind r).2).2 = []) :
    ∃ w : Rest, w.text = s ∧ w.attributes = (AttributeList.take s).1 ∧
      (w.tail?.bind fun t => t.quotation.map fun q => Quoted.content q.1.text) = text ∧
      (w.tail?.bind fun t => t.binding.map fun x => x.1.1) = (takeBind r).1 ∧
      (w.tail?.any fun t => t.mark.block) = (takeBlock (takeBind r).2).1 := by
  by_cases hopen : s.head?.any (· == octet '(')
  · obtain ⟨s, rfl⟩ : ∃ s', s = octet '(' :: s' := by
      cases s with
      | nil => exact absurd hopen (by simp)
      | cons b s => exact ⟨s, by rw [show b = octet '(' by simpa using hopen]⟩
    rw [AttributeList.take_open] at htext ⊢
    cases hclose : Nesting.closeFrom? (Nesting.level 1) s with
    | none =>
      rw [hclose] at htext
      obtain ⟨rfl, rfl⟩ : none = text ∧ [] = r := by
        simpa [takeText?, skipGap, eq_comm] using htext
      exact ⟨.unclosed s (Nesting.closeFrom?_level_one_eq_none_iff.mp hclose), rfl, rfl, rfl, rfl,
        rfl⟩
    | some y =>
      rw [hclose, Option.map_some, Option.getD_some] at htext
      obtain ⟨hs, never, balanced⟩ := Nesting.closeFrom?_level_one_iff.mp hclose
      obtain ⟨tail, htail, hparts⟩ := Tail.exists_of_takeText? htext hblock
      exact ⟨.closed y.1 never balanced tail, by rw [Rest.text, htail, hs], rfl, hparts⟩
  · rw [AttributeList.take_of_head? (by simpa using hopen)] at htext ⊢
    obtain ⟨tail, htail, hparts⟩ := Tail.exists_of_takeText? htext hblock
    exact ⟨.bare tail, htail, rfl, hparts⟩

end TagLine

/-! ### Shorthands -/

namespace Shorthand

theorem ofMark?_text (sh : Shorthand) :
    ∃ mark, sh.text = mark :: sh.name ∧ ofMark? mark sh.name = some sh := by
  cases sh with
  | className n => exact ⟨octet '.', rfl, rfl⟩
  | identifier n => exact ⟨octet '#', rfl, rfl⟩

/-- **Shorthands are taken off as they are written**, in front of what cannot go on with them. -/
theorem takeAll?_flatMap_append {shs : List Shorthand} {r : Bytes}
    (hshs : ∀ sh ∈ shs, sh.name ≠ [] ∧ isName sh.name)
    (hname : shs ≠ [] → r.head?.any isNameOctet = false)
    (hdot : r.head?.any (· == octet '.') = false) (hhash : r.head?.any (· == octet '#') = false) :
    takeAll? (shs.flatMap text ++ r) = some (shs, r) := by
  induction shs with
  | nil => exact takeAll?_of_head? hdot hhash
  | cons sh shs ih =>
    obtain ⟨hsh, hrest⟩ := List.forall_mem_cons.mp hshs
    obtain ⟨mark, htext, hmark⟩ := sh.ofMark?_text
    have hstop : (shs.flatMap text ++ r).head?.any isNameOctet = false := by
      cases shs with
      | nil => exact hname (by simp)
      | cons sh' shs => cases sh' <;> rfl
    have hall := List.all_eq_true.mp hsh.2
    rw [List.flatMap_cons, htext, List.cons_append, List.cons_append, List.append_assoc, takeAll?,
      takeWhile_append_of_boundary hall hstop, dropWhile_append_of_boundary hall hstop, hmark]
    dsimp only
    rw [if_neg (by simpa using hsh.1), ih hrest fun _ => hname (by simp)]

/-- What follows the shorthands cannot go on with the last of them. -/
theorem head?_of_takeAll? {s r : Bytes} {shs : List Shorthand} (h : takeAll? s = some (shs, r))
    (hne : shs ≠ []) : r.head?.any isNameOctet = false := by
  induction s using takeAll?.induct generalizing shs with
  | case1 =>
    obtain ⟨rfl, -⟩ : [] = shs ∧ [] = r := by simpa [takeAll?] using h
    exact absurd rfl hne
  | case2 mark s hnone =>
    obtain ⟨rfl, -⟩ : [] = shs ∧ mark :: s = r := by simpa [takeAll?, hnone] using h
    exact absurd rfl hne
  | case3 mark s sh hsome hempty =>
    rw [takeAll?, hsome] at h
    exact absurd h (by simp [hempty])
  | case4 mark s sh hsome hempty hnone ih =>
    rw [takeAll?, hsome] at h
    exact absurd h (by simp [hempty, hnone])
  | case5 mark s sh hsome hempty shs' t hsome' ih =>
    obtain ⟨-, rfl⟩ : sh :: shs' = shs ∧ t = r := by
      rw [takeAll?, hsome] at h
      dsimp only at h
      rw [if_neg hempty, hsome'] at h
      simpa using h
    cases shs' with
    | nil =>
      have heq := (eq_of_takeAll? hsome').1
      rw [List.flatMap_nil, List.nil_append] at heq
      rw [← heq]
      exact any_head?_dropWhile isNameOctet s
    | cons sh' shs' => exact ih hsome' (by simp)

/-- The classes are the names behind the points. -/
theorem filter_point (shs : List Shorthand) :
    (shs.map text).filter (fun s => s.head? == some (octet '.')) =
      (shs.filterMap fun
        | .className n => some n
        | .identifier _ => none).map (octet '.' :: ·) := by
  induction shs with
  | nil => rfl
  | cons sh shs ih =>
    cases sh with
    | className n => exact congrArg ((octet '.' :: n) :: ·) ih
    | identifier n => exact ih

theorem filter_hash (shs : List Shorthand) :
    (shs.map text).filter (fun s => s.head? == some (octet '#')) =
      (shs.filterMap fun
        | .className _ => none
        | .identifier n => some n).map (octet '#' :: ·) := by
  induction shs with
  | nil => rfl
  | cons sh shs ih =>
    cases sh with
    | className n => exact ih
    | identifier n => exact congrArg ((octet '#' :: n) :: ·) ih

end Shorthand

namespace TagLine

/-- **A spelling is read as its parts.** -/
theorem Spelling.parse?_text (w : Spelling) : parse? w.text = some w.line := by
  have hafter : w.text = w.tag ++ (w.shorthands.flatMap Shorthand.text ++ w.rest.text) := by
    rw [text, head, segments, List.append_assoc, List.flatMap_def]
  have hstart {c : UInt8} (hc : c ≠ octet '(') (htail : isTailStart c = false) :
      w.rest.text.head?.any (· == c) = false := by
    refine head?_any_of_all w.rest.head?_text fun b hb => ?_
    rw [beq_iff_eq.mp hb, htail, Bool.or_false, beq_eq_false_iff_ne]
    exact hc
  have htag : takeTag w.text = (w.tag, w.shorthands.flatMap Shorthand.text ++ w.rest.text) := by
    rw [hafter]
    refine takeWord_append_of_isWord w.isTag ?_
    have hboundary := w.boundary
    cases hshs : w.shorthands with
    | nil => simpa [hshs] using hboundary
    | cons sh shs => cases sh <;> rfl
  have hshorthands := Shorthand.takeAll?_flatMap_append w.isName
    (fun hne => by simpa [hne] using w.boundary) (hstart (by decide) (by decide))
    (hstart (by decide) (by decide))
  obtain ⟨r, m, htext, hbind, hblock⟩ := w.rest.take_after
  rw [parse?, htag]
  dsimp only
  rw [if_neg (by simpa using ne_nil_of_isWord w.isTag), hshorthands]
  dsimp only
  rw [w.rest.take_text]
  dsimp only
  rw [htext]
  dsimp only
  rw [hbind, hblock]
  rfl

/-- **What is read is the text of a spelling.** -/
theorem exists_spelling {s : Bytes} {t : TagLine} (h : parse? s = some t) :
    ∃ w : Spelling, w.text = s ∧ w.line = t := by
  obtain ⟨u, r, hfront, hblock, rfl⟩ := parse?_eq_some_iff.mp h
  cases hfront with
  | @parts r₁ r₂ shorthands text htag hshorthands htext =>
    obtain ⟨rest, hrest, hattributes, hcontent, hbinding, hopens⟩ := exists_rest htext hblock
    obtain ⟨hwritten, hnames⟩ := Shorthand.eq_of_takeAll? hshorthands
    have hboundary : rest.text.head?.any
        (if shorthands.isEmpty then isTagOctet else isNameOctet) = false := by
      rw [hrest]
      cases shorthands with
      | nil =>
        rw [List.flatMap_nil, List.nil_append] at hwritten
        rw [← hwritten]
        exact head?_takeWord htag
      | cons sh shs => exact Shorthand.head?_of_takeAll? hshorthands (by simp)
    refine ⟨⟨(takeTag s).1, isWord_takeWord htag, shorthands, hnames, rest, hboundary⟩, ?_, ?_⟩
    · rw [Spelling.text, Spelling.head, Spelling.segments, ← List.flatMap_def, List.append_assoc,
        hrest, ← hwritten]
      exact takeWord_append isLowerOctet isTagOctet s
    · rw [Spelling.line, hattributes, hcontent, hbinding, hopens]

/-- **A line is a tag line exactly if it is the text of a spelling**, and its parts are then those
of the spelling: every octet of the line belongs to one of them, in order. The segments with a
point are the classes, the last one with a hash sign is the id, and the attribute list starts
behind the head. -/
theorem parse?_iff_spelling {s : Bytes} {t : TagLine} : parse? s = some t ↔
    ∃ w : Spelling, w.text = s ∧ w.line = t ∧
      w.segments.filter (fun s => s.head? == some (octet '.')) = t.classes.map (octet '.' :: ·) ∧
      (w.segments.filter fun s => s.head? == some (octet '#')).getLast? =
        t.identifier?.map (octet '#' :: ·) ∧
      w.head.length = t.headLength := by
  constructor
  · intro h
    obtain ⟨w, rfl, rfl⟩ := exists_spelling h
    refine ⟨w, rfl, rfl, Shorthand.filter_point w.shorthands, ?_, ?_⟩
    · rw [Spelling.segments, Shorthand.filter_hash, List.getLast?_map]
      rfl
    · rw [← length_head, Spelling.head, Spelling.segments, ← List.flatMap_def]
      rfl
  · rintro ⟨w, rfl, rfl, -⟩
    exact w.parse?_text

/-- A parenthesis in a literal of the list does not close it, and an underscore ends a tag. -/
example : parse? (utf8 "p_x") = some { tag := utf8 "p", binding := some (utf8 "_x") } ∧
    parse? (utf8 "a.b#c(d: \")\")'e'f\x7b") = some
      { tag := utf8 "a"
        shorthands := [.className (utf8 "b"), .identifier (utf8 "c")]
        attributes := some ⟨utf8 "d: \")\"", true⟩
        text := some (utf8 "e")
        binding := some (utf8 "f")
        block := true } := by
  decide +kernel

end TagLine

end LiveMarkup
