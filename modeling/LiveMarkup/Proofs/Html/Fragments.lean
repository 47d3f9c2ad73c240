import LiveMarkup.Proofs.Html.Reader

/-!
# What is written as HTML is read back

A document is written in fragments: start tags with quoted values, end tags, and elements with
nothing but a text. The reader of `LiveMarkup.Html.Names.step` finds them again
(`LiveMarkup.Html.Names.tokens_written`) if names are words of small letters, values have no quotes
and texts have no `<` (`LiveMarkup.Html.Fragment.IsSound`). No more is asked of values and texts:
nothing in them is taken for a tag.
-/

namespace LiveMarkup

namespace Html

/-! ### Fragments of a document -/

/-- A name of small letters. -/
def IsWord (s : Bytes) : Prop := s ≠ [] ∧ ∀ b ∈ s, isLowerOctet b

theorem isWord_iff (s : Bytes) : s ≠ [] ∧ s.all isLowerOctet ↔ IsWord s := by
  rw [IsWord, List.all_eq_true]

instance : DecidablePred IsWord := fun s => decidable_of_iff _ (isWord_iff s)

theorem ne_of_isLowerOctet {b c : UInt8} (hb : isLowerOctet b) (hc : isLowerOctet c = false) :
    b ≠ c := by
  rintro rfl
  rw [hb] at hc
  cases hc

theorem isGap_of_isLowerOctet {b : UInt8} (h : isLowerOctet b) : isGap b = false := by
  rw [Bool.eq_false_iff]
  rintro hgap
  simp only [isGap, isPatternBlank, Bool.or_eq_true, beq_iff_eq] at hgap
  rcases hgap with ((((rfl | rfl) | rfl) | rfl) | rfl) | rfl <;> exact absurd h (by decide)

theorem isAlphaOctet_of_isLowerOctet {b : UInt8} (h : isLowerOctet b) : isAlphaOctet b := by
  rw [isAlphaOctet, h, Bool.true_or]

theorem lowerOctet_of_isLowerOctet {b : UInt8} (h : isLowerOctet b) : lowerOctet b = b := by
  have hupper : isUpperOctet b = false := by
    simp only [isLowerOctet, isUpperOctet, Bool.and_eq_true, Bool.and_eq_false_iff,
      decide_eq_true_eq, decide_eq_false_iff_not, UInt8.le_iff_toNat_le] at h ⊢
    have ha : (octet 'a').toNat = 97 := rfl
    have hz : (octet 'Z').toNat = 90 := rfl
    omega
  rw [lowerOctet, hupper]
  rfl

/-- An attribute as it is written. -/
def attributeText (a : Bytes × Bytes) : Bytes := utf8 " " ++ a.1 ++ utf8 "=\"" ++ a.2 ++ utf8 "\""

/-- A start tag as it is written. -/
def startText (name : Bytes) (as : Attributes) : Bytes :=
  utf8 "<" ++ name ++ as.flatMap attributeText ++ utf8 ">"

/-- An end tag as it is written. -/
def finishText (name : Bytes) : Bytes := utf8 "</" ++ name ++ utf8 ">"

/-- Attributes that can be read back. -/
def AreWritable (as : Attributes) : Prop := ∀ a ∈ as, IsWord a.1 ∧ octet '"' ∉ a.2

theorem areWritable_iff (as : Attributes) :
    (as.all fun a => decide (IsWord a.1 ∧ octet '"' ∉ a.2)) ↔ AreWritable as := by
  simp only [AreWritable, List.all_eq_true, decide_eq_true_eq]

instance : DecidablePred AreWritable := fun as => decidable_of_iff _ (areWritable_iff as)

/-- A fragment of a document. -/
inductive Fragment
  | declaration (s : Bytes)
  | start (name : Bytes) (attributes : Attributes)
  | finish (name : Bytes)
  /-- An element with nothing but a text. -/
  | leaf (name : Bytes) (attributes : Attributes) (content : Bytes)

/-- A fragment as it is written. -/
def Fragment.written : Fragment → Bytes
  | .declaration s => utf8 "<!" ++ s ++ utf8 ">"
  | .start name as => startText name as
  | .finish name => finishText name
  | .leaf name as s => startText name as ++ s ++ finishText name

/-- A fragment that can be read back. -/
def Fragment.IsSound : Fragment → Prop
  | .declaration s => octet '>' ∉ s ∧ isOpenComment s = false
  | .start name as => IsWord name ∧ AreWritable as ∧ isPlain name = false
  | .finish name => IsWord name
  | .leaf name as s => IsWord name ∧ AreWritable as ∧ octet '<' ∉ s

instance : DecidablePred Fragment.IsSound
  | .declaration s => inferInstanceAs (Decidable (octet '>' ∉ s ∧ isOpenComment s = false))
  | .start name as =>
    inferInstanceAs (Decidable (IsWord name ∧ AreWritable as ∧ isPlain name = false))
  | .finish name => inferInstanceAs (Decidable (IsWord name))
  | .leaf name as s => inferInstanceAs (Decidable (IsWord name ∧ AreWritable as ∧ octet '<' ∉ s))

namespace Names

/-- Attributes with the references in their values replaced. -/
def decodeAll (t : Names) (as : Attributes) : Attributes :=
  as.map fun a => (a.1, t.decode true a.2)

/-- The tokens that a fragment should be read as. -/
def tokensOf (t : Names) : Fragment → List Token
  | .declaration s => [.declaration s]
  | .start name as => [.start name (t.decodeAll as)]
  | .finish name => [.finish name]
  | .leaf name as s =>
    if isPlain name then [t.element ⟨false, name, t.decodeAll as⟩ s, .finish name]
    else .start name (t.decodeAll as) :: t.texts s ++ [.finish name]

variable {t : Names} {p : Place} {s : Bytes}

/-! ### Names of tags and attributes -/

/-- A name is read where a letter begins one and more letters go on with it. -/
theorem reads_word (place : Bytes → Place) (hs : IsWord s)
    (hfirst : ∀ b, isLowerOctet b → t.step p b = ([], place [b]))
    (hnext : ∀ read b, isLowerOctet b → t.step (place read) b = ([], place (read ++ [b]))) :
    t.Reads p s [] (place s) := by
  obtain ⟨hne, hall⟩ := hs
  obtain ⟨b, s, rfl⟩ := List.exists_cons_of_ne_nil hne
  rw [List.forall_mem_cons] at hall
  have hrest : t.Reads (place [b]) s [] (place ([b] ++ s)) := reads_of_step place hnext hall.2 [b]
  rw [Reads, run, hfirst b hall.1, hrest]
  rfl

theorem step_name {b : UInt8} (hb : isLowerOctet b) (isFinish : Bool) (read : Bytes) :
    t.step (.name isFinish read) b = ([], .name isFinish (read ++ [b])) := by
  rw [step, if_neg (ne_of_isLowerOctet hb (by decide)), isGap_of_isLowerOctet hb,
    lowerOctet_of_isLowerOctet hb]
  rfl

theorem step_key {b : UInt8} (hb : isLowerOctet b) (g : Tag) (read : Bytes) :
    t.step (.key g read) b = ([], .key g (read ++ [b])) := by
  have hgap := isGap_of_isLowerOctet hb
  rw [isGap, Bool.or_eq_false_iff, beq_eq_false_iff_ne] at hgap
  rw [step, if_neg (ne_of_isLowerOctet hb (by decide)), if_neg (ne_of_isLowerOctet hb (by decide)),
    hgap.1, if_neg hgap.2, lowerOctet_of_isLowerOctet hb]
  rfl

/-- The name of a start tag. -/
theorem reads_opened (hs : IsWord s) : t.Reads .opened s [] (.name false s) := by
  refine reads_word (.name false) hs (fun b hb => ?_) fun read b hb => step_name hb false read
  rw [step, if_neg (ne_of_isLowerOctet hb (by decide)), if_neg (ne_of_isLowerOctet hb (by decide)),
    if_neg (ne_of_isLowerOctet hb (by decide)), if_pos (isAlphaOctet_of_isLowerOctet hb),
    lowerOctet_of_isLowerOctet hb]

/-- The name of an end tag. -/
theorem reads_leaving (hs : IsWord s) : t.Reads .leaving s [] (.name true s) := by
  refine reads_word (.name true) hs (fun b hb => ?_) fun read b hb => step_name hb true read
  rw [step, if_neg (ne_of_isLowerOctet hb (by decide)), if_pos (isAlphaOctet_of_isLowerOctet hb),
    lowerOctet_of_isLowerOctet hb]

theorem reads_key (g : Tag) (hs : IsWord s) : t.Reads (.between g) s [] (.key g s) := by
  refine reads_word (.key g) hs (fun b hb => ?_) fun read b hb => step_key hb g read
  rw [step, if_neg (ne_of_isLowerOctet hb (by decide)), isGap_of_isLowerOctet hb,
    lowerOctet_of_isLowerOctet hb]
  rfl

/-! ### Tags -/

theorem reads_attribute (g : Tag) {a : Bytes × Bytes} (hkey : IsWord a.1)
    (hvalue : octet '"' ∉ a.2) :
    t.Reads (.between g) (attributeText a) [] (.between (t.put g a.1 a.2)) := by
  have hspace : t.Reads (.between g) (utf8 " ") [] (.between g) := rfl
  have hsign : t.Reads (.key g a.1) (utf8 "=\"") [] (.quoted g a.1 (octet '"') []) := rfl
  have hquote : t.Reads (.quoted g a.1 (octet '"') a.2) (utf8 "\"") []
      (.between (t.put g a.1 a.2)) := rfl
  exact ((((hspace.append (reads_key g hkey)).append hsign).append
    (reads_quoted g a.1 hvalue)).append hquote)

theorem reads_attributes {as : Attributes} (has : AreWritable as) (g : Tag) :
    t.Reads (.between g) (as.flatMap attributeText) []
      (.between { g with attributes := g.attributes ++ t.decodeAll as }) := by
  induction as generalizing g with
  | nil =>
    rw [decodeAll, List.map_nil, List.append_nil]
    rfl
  | cons a as ih =>
    rw [AreWritable, List.forall_mem_cons] at has
    have hrest := ih has.2 (t.put g a.1 a.2)
    rw [put, List.append_assoc, List.singleton_append] at hrest
    rw [List.flatMap_cons]
    exact (reads_attribute g has.1.1 has.1.2).append hrest

/-- The attributes of a tag begin with a blank, or there are none. -/
theorem reads_name {as : Attributes} (has : AreWritable as) (name : Bytes) :
    t.Reads (.name false name) (as.flatMap attributeText ++ utf8 ">")
      (Tag.close ⟨false, name, t.decodeAll as⟩).1 (Tag.close ⟨false, name, t.decodeAll as⟩).2 := by
  cases as with
  | nil => exact reads_singleton rfl
  | cons a as =>
    have hblank : t.Reads (.between ⟨false, name, []⟩) ((a :: as).flatMap attributeText) []
        (.between ⟨false, name, t.decodeAll (a :: as)⟩) := reads_attributes has _
    have hend : t.Reads (.between ⟨false, name, t.decodeAll (a :: as)⟩) (utf8 ">")
        (Tag.close ⟨false, name, t.decodeAll (a :: as)⟩).1
        (Tag.close ⟨false, name, t.decodeAll (a :: as)⟩).2 := reads_singleton rfl
    -- After the blank the reader is where it would be if it had begun behind the name.
    exact hblank.append hend

theorem reads_startText {name : Bytes} (hname : IsWord name) {as : Attributes}
    (has : AreWritable as) :
    t.Reads (.text []) (startText name as) (Tag.close ⟨false, name, t.decodeAll as⟩).1
      (Tag.close ⟨false, name, t.decodeAll as⟩).2 := by
  have hopen : t.Reads (.text []) (utf8 "<") [] .opened := rfl
  have h := (hopen.append (reads_opened hname)).append (reads_name has name)
  rw [← List.append_assoc] at h
  exact h

theorem reads_finishText {name : Bytes} (hname : IsWord name) (read : Bytes) :
    t.Reads (.text read) (finishText name) (t.texts read ++ [.finish name]) (.text []) := by
  have hopen : t.Reads (.text read) (utf8 "<") (t.texts read) .opened := reads_singleton rfl
  have hslash : t.Reads .opened (utf8 "/") [] .leaving := rfl
  have hclose : t.Reads (.name true name) (utf8 ">") [.finish name] (.text []) := rfl
  have h := ((hopen.append hslash).append (reads_leaving hname)).append hclose
  rwa [List.append_nil, List.append_nil] at h

/-- **The content of an element ends with the end tag of the element.** -/
theorem reads_plain_finishText (g : Tag) (hname : IsWord g.name) (content : Bytes) :
    t.Reads (.plain g content) (finishText g.name) [t.element g content, .finish g.name]
      (.text []) := by
  have hopen : t.Reads (.plain g content) (utf8 "</") [] (.closing g content (utf8 "/")) := rfl
  have hletters : t.Reads (.closing g content (utf8 "/")) g.name []
      (.closing g content (utf8 "/" ++ g.name)) := by
    -- No letter ends the tag, even if the name so far is that of the element.
    refine reads_of_step (.closing g content) (fun read b hb => ?_) hname.2 (utf8 "/")
    have hend : ¬(b = octet '>' ∨ isGap b) := by
      rw [isGap_of_isLowerOctet hb, not_or]
      exact ⟨ne_of_isLowerOctet hb (by decide), Bool.false_ne_true⟩
    rw [step, if_neg fun h => hend h.2, if_neg (ne_of_isLowerOctet hb (by decide))]
  have hfolded : (utf8 "/" ++ g.name).map lowerOctet = octet '/' :: g.name := by
    rw [List.map_append, List.map_congr_left fun b hb => lowerOctet_of_isLowerOctet (hname.2 b hb),
      List.map_id']
    rfl
  have hclose : t.Reads (.closing g content (utf8 "/" ++ g.name)) (utf8 ">")
      [t.element g content, .finish g.name] (.text []) :=
    reads_singleton ((if_pos ⟨hfolded, Or.inl rfl⟩).trans (if_pos rfl))
  exact (hopen.append hletters).append hclose

/-! ### A whole document -/

/-- **A fragment is read as it should be.** -/
theorem reads_written {f : Fragment} (h : f.IsSound) :
    t.Reads (.text []) f.written (t.tokensOf f) (.text []) := by
  cases f with
  | declaration s =>
    obtain ⟨hend, hcomment⟩ := h
    have hopen : t.Reads (.text []) (utf8 "<!") [] (.declaration []) := rfl
    have hclose : t.Reads (.declaration s) (utf8 ">") [.declaration s] (.text []) :=
      reads_singleton (if_pos ⟨rfl, by simp [hcomment]⟩)
    exact (hopen.append (reads_declaration hend)).append hclose
  | start name as =>
    obtain ⟨hname, has, hkind⟩ := h
    have hstart := reads_startText (t := t) hname has
    rwa [Tag.close, if_neg Bool.false_ne_true, hkind] at hstart
  | finish name => exact reads_finishText h []
  | leaf name as s =>
    obtain ⟨hname, has, hs⟩ := h
    have hstart := reads_startText (t := t) hname has
    rw [Tag.close, if_neg Bool.false_ne_true] at hstart
    rw [Fragment.written, tokensOf]
    -- What the start tag leads to decides how the text behind it is read.
    split_ifs at hstart ⊢ with hkind
    · exact (hstart.append (reads_plain _ hs)).append
        (reads_plain_finishText ⟨false, name, t.decodeAll as⟩ hname s)
    · exact (hstart.append (reads_text hs)).append (reads_finishText hname s)

/-- **A document is read as the fragments that were written.** -/
theorem tokens_written {fs : List Fragment} (h : ∀ f ∈ fs, f.IsSound) :
    t.tokens (fs.flatMap Fragment.written) = fs.flatMap t.tokensOf := by
  refine tokens_of_reads ?_
  induction fs with
  | nil => rfl
  | cons f fs ih =>
    rw [List.forall_mem_cons] at h
    rw [List.flatMap_cons, List.flatMap_cons]
    exact (reads_written h.1).append (ih h.2)

end Names

end Html

end LiveMarkup
