import LiveMarkup.Proofs.Style.PropertyName

/-!
# The names of declared properties

A declaration has its name in front of a colon: `LiveMarkup.Style.writtenName` is what stands there,
and the declared property is stored under the kebab-case form of it
(`LiveMarkup.Style.name_of_parse?`).

The stored form keeps the letters and digits of the name, in small letters
(`LiveMarkup.Style.filter_propertyName`), and nothing else of it but a dash in front. So it is as
good a name as the written one was: a name without letters and digits, made of marks only, is
stored as no name at all. And a name in kebab case is stored as it is, up to the dashes in front of
it, of which only one is left. `LiveMarkup.Style.declared_names` says both.
-/

namespace LiveMarkup

namespace Style

/-! ### What is kept of a name -/

/-- Whether an octet is a letter or a digit. -/
def isWordOctet (b : UInt8) : Bool := isAlphaOctet b || isDigitOctet b

/-- Letters and digits are no word marks, and keep their kind in small letters. -/
theorem kind_lowerOctet (b : UInt8) :
    (isWordMark b → isWordOctet b = false) ∧
    isAlphaOctet (lowerOctet b) = isAlphaOctet b ∧
    isWordOctet (lowerOctet b) = isWordOctet b := by
  have htoNat := toNat_lowerOctet b
  refine ⟨fun hmark => Bool.eq_false_iff.mpr ?_, Bool.eq_iff_iff.mpr ?_, Bool.eq_iff_iff.mpr ?_⟩
  · rw [isWordMark_iff] at hmark
    simp only [ne_eq, isWordOctet, isAlphaOctet, Bool.or_eq_true, isLowerOctet_iff,
      isUpperOctet_iff, isDigitOctet_iff]
    omega
  all_goals
    simp only [isWordOctet, isAlphaOctet, Bool.or_eq_true, isLowerOctet_iff, isUpperOctet_iff,
      isDigitOctet_iff] at htoNat ⊢
    split at htoNat <;> omega

/-- Without the dashes between them, plain words are one after another. -/
theorem filter_intercalate {ws : List Bytes} (h : ∀ w ∈ ws, isPlain w) :
    (List.intercalate (utf8 "-") ws).filter (!isWordMark ·) = ws.flatten := by
  have hword {w : Bytes} (hw : isPlain w) : w.filter (!isWordMark ·) = w := by
    refine List.filter_eq_self.mpr fun b hb => ?_
    simp [(lowerOctet_of_stored (stored_of_isPlain hw b hb)).2.1]
  induction ws with
  | nil => rfl
  | cons w ws ih =>
    rw [List.forall_mem_cons] at h
    rcases ws with - | ⟨v, ws⟩
    · rw [List.intercalate_singleton, hword h.1, List.flatten_cons, List.flatten_nil,
        List.append_nil]
    · have hdash : (utf8 "-").filter (!isWordMark ·) = [] := rfl
      rw [List.intercalate_cons_cons, List.filter_append, List.filter_append, hword h.1, hdash,
        ih h.2, List.append_nil]
      rfl

/-- **Storing a name keeps its letters and digits**, in small letters. -/
theorem filter_propertyName {name : Bytes} (h : ∀ b ∈ name, isNameOctet b) :
    (propertyName name).filter (!isWordMark ·) =
      (name.filter (!isWordMark ·)).map lowerOctet := by
  have hdashes : (List.replicate (leadingDashes name) (octet '-')).filter (!isWordMark ·) = [] :=
    List.filter_eq_nil_iff.mpr fun b hb => by
      rw [List.eq_of_mem_replicate hb]
      decide
  rw [propertyName_eq, List.filter_append, hdashes, List.nil_append,
    filter_intercalate (isPlain_of_mem_nameWords h), flatten_nameWords h]

/-- A stored name has letters, or digits, where the name has. -/
theorem any_propertyName {name : Bytes} (h : ∀ b ∈ name, isNameOctet b) {p : UInt8 → Bool}
    (hmark : ∀ b, isWordMark b → p b = false) (hlower : ∀ b, p (lowerOctet b) = p b) :
    (propertyName name).any p = name.any p := by
  have hfilter (s : Bytes) : (s.filter (!isWordMark ·)).any p = s.any p := by
    rw [List.any_filter]
    congr 1
    funext b
    cases hb : isWordMark b with
    | false => rfl
    | true => rw [hmark b hb]; rfl
  have hcomp : p ∘ lowerOctet = p := funext hlower
  rw [← hfilter, filter_propertyName h, List.any_map, hcomp, hfilter]

/-- **The form of a property name**: dashes, then words of small letters and digits that are joined
by single dashes. -/
def HasNameForm (s : Bytes) : Prop :=
  ∃ (k : Nat) (ws : List Bytes), ws ≠ [] ∧
    (∀ w ∈ ws, w ≠ [] ∧ w.all fun b => isLowerOctet b || isDigitOctet b) ∧
    s = List.replicate k (octet '-') ++ kebabCase ws

/-- **A stored name has the form of one** exactly if there is a letter or a digit in it. -/
theorem hasNameForm_propertyName {name : Bytes} (h : ∀ b ∈ name, isNameOctet b) :
    HasNameForm (propertyName name) ↔ name.any isWordOctet := by
  have hany := any_propertyName h (p := isWordOctet) (fun b => (kind_lowerOctet b).1)
    fun b => (kind_lowerOctet b).2.2
  constructor
  · rintro ⟨k, ws, hne, hws, heq⟩
    rcases ws with - | ⟨w, ws⟩
    · exact absurd rfl hne
    -- The first octet of the first word is a letter or a digit, and the name has it too.
    obtain ⟨hw, hstored⟩ := hws w List.mem_cons_self
    obtain ⟨b, r, rfl⟩ := List.exists_cons_of_ne_nil hw
    have hmem : b ∈ propertyName name := by
      rw [heq]
      refine List.mem_append_right _ ?_
      rcases ws with - | ⟨v, ws⟩ <;> simp [kebabCase]
    rw [← hany]
    refine List.any_eq_true.mpr ⟨b, hmem, ?_⟩
    have hb : isLowerOctet b || isDigitOctet b := List.all_eq_true.mp hstored b List.mem_cons_self
    rw [Bool.or_eq_true] at hb
    rcases hb with hb | hb <;> simp [isWordOctet, isAlphaOctet, hb]
  · intro hname
    refine ⟨leadingDashes name, nameWords name, ?_, fun w hw => ?_, propertyName_eq name⟩
    · intro hnil
      obtain ⟨b, hb, hword⟩ := List.any_eq_true.mp hname
      -- A letter or a digit is kept, so there is a word.
      have hkept : b ∈ name.filter (!isWordMark ·) := by
        refine List.mem_filter.mpr ⟨hb, ?_⟩
        rcases Bool.eq_false_or_eq_true (isWordMark b) with hmark | hmark
        · rw [(kind_lowerOctet b).1 hmark] at hword
          cases hword
        · rw [hmark]
          rfl
      have hwords := flatten_nameWords h
      rw [hnil, List.flatten_nil, eq_comm, List.map_eq_nil_iff] at hwords
      rw [hwords] at hkept
      cases hkept
    · have hplain := isPlain_of_mem_nameWords h w hw
      exact ⟨(isPlain_iff.mp hplain).1, List.all_eq_true.mpr fun b hb => by
        simpa using stored_of_isPlain hplain b hb⟩

/-! ### The name of a declaration -/

/-- What a declaration has for a name: the name octets in front. -/
def writtenName (d : Bytes) : Bytes := d.trim.takeWhile isNameOctet

/-- **A declaration is stored under its name**, which stands in front of blanks and a colon. -/
theorem name_of_parse? {d : Bytes} {p : StyleProperty} (h : parse? d = some p) :
    isWrittenName (writtenName d) ∧ p.name = propertyName (writtenName d) ∧
    ∃ gap rest, gap.all isPatternBlank ∧ d.trim = writtenName d ++ gap ++ octet ':' :: rest := by
  rw [parse?] at h
  split at h
  · cases h
  rename_i b r htrim
  split at h
  swap
  · cases h
  rename_i hb
  split at h
  · cases h
  rename_i c t hrest
  dsimp only at h
  split at h
  swap
  · cases h
  rename_i hcond
  obtain rfl := Option.some.inj h
  have hname : writtenName d = b :: r.takeWhile isNameOctet := by
    rw [writtenName, htrim, List.takeWhile_cons_of_pos (isNameOctet_of_isNameStart hb)]
  refine ⟨?_, by rw [hname], (r.dropWhile isNameOctet).takeWhile isPatternBlank, t,
    List.all_takeWhile, ?_⟩
  · rw [hname, isWrittenName, isWord, hb, Bool.true_and]
    exact List.all_takeWhile
  · rw [htrim, hname, ← hcond.1, ← hrest, List.append_assoc, List.takeWhile_append_dropWhile,
      List.cons_append, List.takeWhile_append_dropWhile]

/-- **The names of declared properties.** Every declaration of a list has a name in front of its
colon. The property has letters in its name if the written name has some, and its name has the form
of a property name if the written name has letters or digits; so it is a valid name exactly if a
letter is written. Words of small letters, joined by dashes, are stored as they are, behind one dash
if there are dashes in front; so a name with two dashes or more in front is the only one in kebab
case that is not kept. -/
theorem declared_names {s : Bytes} {p : StyleProperty} (h : p ∈ (parseList s).1) :
    ∃ d ∈ Nesting.split (octet ';') s, parse? d = some p ∧ isWrittenName (writtenName d) ∧
      (∃ gap rest, gap.all isPatternBlank ∧ d.trim = writtenName d ++ gap ++ octet ':' :: rest) ∧
      (p.name.any isAlphaOctet ↔ (writtenName d).any isAlphaOctet) ∧
      (HasNameForm p.name ↔ (writtenName d).any isWordOctet) ∧
      ∀ (k : Nat) (ws : List Bytes), (∀ w ∈ ws, w ≠ [] ∧ w.all isLowerOctet) →
        writtenName d = List.replicate k (octet '-') ++ kebabCase ws →
        p.name = List.replicate (min k 1) (octet '-') ++ kebabCase ws ∧
          (p.name = writtenName d ↔ k ≤ 1) := by
  obtain ⟨d, hd, hp⟩ := exists_parse?_of_mem_parseList h
  obtain ⟨hwritten, hname, hcolon⟩ := name_of_parse? hp
  have hoctets := isNameOctet_of_isWrittenName hwritten
  refine ⟨d, hd, hp, hwritten, hcolon, ?_, ?_, fun k ws hws hkebab => ?_⟩
  · have hmark (b : UInt8) (hb : isWordMark b) : isAlphaOctet b = false :=
      (Bool.or_eq_false_iff.mp ((kind_lowerOctet b).1 hb)).1
    rw [hname, any_propertyName hoctets hmark fun b => (kind_lowerOctet b).2.1]
  · rw [hname]
    exact hasNameForm_propertyName hoctets
  · have hplain : ∀ w ∈ ws, isPlain w := fun w hw =>
      isPlain_iff.mpr ⟨(hws w hw).1, Or.inl (List.all_eq_true.mp (hws w hw).2)⟩
    have hstored : p.name = List.replicate (min k 1) (octet '-') ++ kebabCase ws := by
      rw [hname, hkebab]
      exact propertyName_replicate_append_intercalate k hplain
    refine ⟨hstored, ?_⟩
    rw [hstored, hkebab, List.append_left_inj, List.replicate_inj]
    simp only [or_true, and_true]
    omega

/-- A vendor name in front of a blank, with a capital in it. -/
theorem declared_names_vendor :
    (⟨utf8 "-moz-tab", utf8 "4"⟩ : StyleProperty) ∈ (parseList (utf8 "a; -mozTab : 4")).1 ∧
    ∃ d ∈ Nesting.split (octet ';') (utf8 "a; -mozTab : 4"),
      parse? d = some ⟨utf8 "-moz-tab", utf8 "4"⟩ ∧
      (HasNameForm (utf8 "-moz-tab") ↔ (writtenName d).any isWordOctet) := by
  have hlist : (parseList (utf8 "a; -mozTab : 4")).1 = [⟨utf8 "-moz-tab", utf8 "4"⟩] := by
    decide +kernel
  have hmem : (⟨utf8 "-moz-tab", utf8 "4"⟩ : StyleProperty) ∈
      (parseList (utf8 "a; -mozTab : 4")).1 := hlist ▸ List.mem_singleton_self _
  obtain ⟨d, hd, hp, -, -, -, hform, -⟩ := declared_names hmem
  exact ⟨hmem, d, hd, hp, hform⟩

/-- **A custom name loses a dash, and marks alone are stored as no name.** -/
theorem declared_names_of_marks :
    (parseList (utf8 "--main-color: red; _: x")).1 =
      [⟨utf8 "-main-color", utf8 "red"⟩, ⟨[], utf8 "x"⟩] ∧ ¬HasNameForm [] := by
  refine ⟨by decide +kernel, ?_⟩
  have hmark : propertyName (utf8 "_") = [] := by decide +kernel
  have hwritten : isWrittenName (utf8 "_") := by decide
  rw [← hmark, hasNameForm_propertyName (isNameOctet_of_isWrittenName hwritten)]
  decide

end Style

end LiveMarkup
