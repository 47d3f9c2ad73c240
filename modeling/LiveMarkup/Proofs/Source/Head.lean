import LiveMarkup.Proofs.Source.BlockMark

/-!
# The head of a tag line

A tag line starts with its tag and its shorthands, each of them a mark and a name. They are written
out in the line as they are (`LiveMarkup.TagLine.eq_head_append_of_parse?`), and the attribute list
stands directly behind them. All octets of the head are ASCII, so that its length is the number of
columns in front of the list (`LiveMarkup.TagLine.length_head`).
-/

namespace LiveMarkup

namespace Shorthand

/-- The text of a shorthand: the mark and the name. -/
def text : Shorthand → Bytes
  | .className n => octet '.' :: n
  | .identifier n => octet '#' :: n

theorem text_of_ofMark? {mark : UInt8} {name : Bytes} {sh : Shorthand}
    (h : ofMark? mark name = some sh) : sh.text = mark :: name ∧ sh.name = name := by
  rw [ofMark?] at h
  split at h
  · rename_i hmark
    obtain rfl := Option.some.inj h
    exact ⟨by rw [text, hmark], rfl⟩
  · split at h
    · rename_i hmark
      obtain rfl := Option.some.inj h
      exact ⟨by rw [text, hmark], rfl⟩
    · exact absurd h (by simp)

theorem length_text (sh : Shorthand) : sh.text.length = sh.name.length + 1 := by
  cases sh <;> rfl

/-- **Shorthands are taken off as they are written**, and each of them has a name. -/
theorem eq_of_takeAll? {s r : Bytes} {shs : List Shorthand} (h : takeAll? s = some (shs, r)) :
    s = shs.flatMap text ++ r ∧ ∀ sh ∈ shs, sh.name ≠ [] ∧ isName sh.name := by
  induction s using takeAll?.induct generalizing shs with
  | case1 =>
    obtain ⟨rfl, rfl⟩ : [] = shs ∧ [] = r := by simpa [takeAll?] using h
    exact ⟨rfl, by simp⟩
  | case2 mark s hnone =>
    obtain ⟨rfl, rfl⟩ : [] = shs ∧ mark :: s = r := by simpa [takeAll?, hnone] using h
    exact ⟨rfl, by simp⟩
  | case3 mark s sh hsome hempty =>
    rw [takeAll?, hsome] at h
    exact absurd h (by simp [hempty])
  | case4 mark s sh hsome hempty hnone ih =>
    rw [takeAll?, hsome] at h
    exact absurd h (by simp [hempty, hnone])
  | case5 mark s sh hsome hempty shs' t hsome' ih =>
    obtain ⟨rfl, rfl⟩ : sh :: shs' = shs ∧ t = r := by
      rw [takeAll?, hsome] at h
      dsimp only at h
      rw [if_neg hempty, hsome'] at h
      simpa using h
    obtain ⟨hrest, hnames⟩ := ih hsome'
    obtain ⟨htext, hname⟩ := text_of_ofMark? hsome
    constructor
    · rw [List.flatMap_cons, htext, List.cons_append, List.cons_append, List.append_assoc, ← hrest,
        List.takeWhile_append_dropWhile]
    · refine List.forall_mem_cons.mpr ⟨?_, hnames⟩
      rw [hname]
      exact ⟨by simpa using hempty, List.all_takeWhile⟩

end Shorthand

namespace TagLine

/-- The text of a tag line in front of its attribute list: the tag and the shorthands. -/
def head (t : TagLine) : Bytes := t.tag ++ t.shorthands.flatMap Shorthand.text

/-- **The attribute list starts behind the head.** -/
theorem length_head (t : TagLine) : t.head.length = t.headLength := by
  have hfold (shs : List Shorthand) (n : Nat) :
      shs.foldl (fun n sh => n + sh.name.length + 1) n =
        n + (shs.flatMap Shorthand.text).length := by
    induction shs generalizing n with
    | nil => rfl
    | cons sh shs ih =>
      rw [List.foldl_cons, ih, List.flatMap_cons, List.length_append, Shorthand.length_text]
      omega
  rw [head, List.length_append, headLength, hfold]

section Parsed

variable {s : Bytes} {t : TagLine} (h : parse? s = some t)

include h

/-- **A tag line is written with its head in front**, and its attribute list is the one behind it.
-/
theorem eq_head_append_of_parse? :
    ∃ r, s = t.head ++ r ∧ t.attributes = (AttributeList.take r).1 := by
  obtain ⟨u, r, hfront, -, rfl⟩ := parse?_eq_some_iff.mp h
  cases hfront with
  | parts htag hshorthands htext =>
    rename_i r₁ r₂ shorthands text
    refine ⟨r₁, ?_, rfl⟩
    have htake := takeWord_append isLowerOctet isTagOctet s
    rw [head, List.append_assoc, ← (Shorthand.eq_of_takeAll? hshorthands).1]
    exact htake.symm

/-- Every shorthand of a tag line has a name. -/
theorem isName_of_mem_shorthands :
    ∀ sh ∈ t.shorthands, sh.name ≠ [] ∧ isName sh.name := by
  obtain ⟨u, r, hfront, -, rfl⟩ := parse?_eq_some_iff.mp h
  cases hfront with
  | parts htag hshorthands htext => exact (Shorthand.eq_of_takeAll? hshorthands).2

theorem isName_of_mem_classes : ∀ c ∈ t.classes, c ≠ [] ∧ isName c := by
  intro c hc
  obtain ⟨sh, hsh, hname⟩ := List.mem_filterMap.mp hc
  cases sh with
  | className n =>
    obtain rfl := Option.some.inj hname
    exact isName_of_mem_shorthands h _ hsh
  | identifier n => exact absurd hname (by simp)

theorem isName_of_identifier? {x : Bytes} (hx : t.identifier? = some x) : isName x := by
  obtain ⟨sh, hsh, hname⟩ := List.mem_filterMap.mp (List.mem_of_getLast? hx)
  cases sh with
  | className n => exact absurd hname (by simp)
  | identifier n =>
    obtain rfl := Option.some.inj hname
    exact (isName_of_mem_shorthands h _ hsh).2

end Parsed

end TagLine

end LiveMarkup
