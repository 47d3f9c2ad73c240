import LiveMarkup.Proofs.Source.Parts
import LiveMarkup.Style.PropertyName

/-!
# The words of a property name

A name is cut into parts at its word marks, and a part into words where the class of its characters
changes. `LiveMarkup.Style.nameWords` are the words in small letters; joined by dashes they are the
stored name, up to a dash in front (`LiveMarkup.Style.propertyName_eq`).

Two facts say what the words of a name are. Each of them consists of small letters or of digits
(`LiveMarkup.Style.isPlain_of_mem_nameWords`), and one after another they are the letters and digits
of the name (`LiveMarkup.Style.flatten_nameWords`). A text of such words is cut where they were
joined (`LiveMarkup.Style.nameWords_intercalate`), so that the stored form of a name is a fixed
point (`LiveMarkup.Style.propertyName_replicate_append_intercalate`).

In camel case the words are told apart by their capitals only. A single capital is a run of its own,
which is moved to the small letters behind it and leaves an empty run; that is why every word has to
have a second letter (`LiveMarkup.Style.spellings_agree`).
-/

namespace LiveMarkup

namespace Style

/-! ### Runs of one class -/

theorem runs_cons (c : Char) (cs : List Char) : runs (c :: cs) = consRun c (runs cs) := rfl

/-- A character goes in front of the characters of the runs. -/
theorem flatten_consRun (c : Char) (rs : List (List Char)) :
    (consRun c rs).flatten = c :: rs.flatten := by
  rcases rs with - | ⟨- | ⟨d, ds⟩, rs⟩
  · rfl
  · rfl
  · rw [consRun]
    split <;> rfl

theorem flatten_runs (cs : List Char) : (runs cs).flatten = cs := by
  induction cs with
  | nil => rfl
  | cons c cs ih => rw [runs_cons, flatten_consRun, ih]

/-- **The characters of a run are of one class**, and there is at least one of them. -/
theorem exists_class_of_mem_runs {cs r : List Char} (h : r ∈ runs cs) :
    r ≠ [] ∧ ∃ k, ∀ c ∈ r, letterClass c = k := by
  induction cs generalizing r with
  | nil => exact absurd h (by simp [runs])
  | cons c cs ih =>
    have hsingle : [c] ≠ [] ∧ ∃ k, ∀ d ∈ [c], letterClass d = k :=
      ⟨by simp, letterClass c, List.forall_mem_singleton.mpr rfl⟩
    rw [runs_cons] at h
    generalize runs cs = rs at h ih
    rcases rs with - | ⟨- | ⟨d, ds⟩, rs⟩
    · rwa [List.mem_singleton.mp h]
    · rcases List.mem_cons.mp h with rfl | h
      · exact hsingle
      · exact ih (List.mem_cons_of_mem _ h)
    · rw [consRun] at h
      split at h
      · rename_i hcd
        rcases List.mem_cons.mp h with rfl | h
        · obtain ⟨-, k, hk⟩ := ih List.mem_cons_self
          refine ⟨by simp, k, List.forall_mem_cons.mpr ⟨?_, hk⟩⟩
          rw [hcd]
          exact hk d List.mem_cons_self
        · exact ih (List.mem_cons_of_mem _ h)
      · rcases List.mem_cons.mp h with rfl | h
        · exact hsingle
        · exact ih h

/-- **A run ends where the class changes.** -/
theorem runs_append {k : LetterClass} {r : List Char} (hne : r ≠ [])
    (hr : ∀ c ∈ r, letterClass c = k) {cs : List Char}
    (hcs : ∀ d, cs.head? = some d → letterClass d ≠ k) : runs (r ++ cs) = r :: runs cs := by
  induction r with
  | nil => exact absurd rfl hne
  | cons c r ih =>
    rw [List.forall_mem_cons] at hr
    rw [List.cons_append, runs_cons]
    rcases r with - | ⟨d, r⟩
    · rcases cs with - | ⟨e, cs⟩
      · rfl
      · have hce : letterClass c ≠ letterClass e := by
          rw [hr.1]
          exact (hcs e rfl).symm
        rw [List.nil_append]
        -- The runs of what follows start with its first character.
        have hhead : ∃ es rs, runs (e :: cs) = (e :: es) :: rs := by
          rw [runs_cons]
          rcases runs cs with - | ⟨- | ⟨d, ds⟩, rs⟩
          · exact ⟨_, _, rfl⟩
          · exact ⟨_, _, rfl⟩
          · rw [consRun]
            split <;> exact ⟨_, _, rfl⟩
        obtain ⟨es, rs, hruns⟩ := hhead
        rw [hruns, consRun, if_neg hce]
    · have hcd : letterClass c = letterClass d := by
        rw [hr.1, hr.2 d List.mem_cons_self]
      rw [ih (by simp) hr.2, consRun, if_pos hcd]

/-! ### Moving capitals -/

/-- Whether characters can be one word: all of them are letters, or all are digits. -/
def OneKind (w : List Char) : Prop :=
  (∀ c ∈ w, letterClass c = .lower ∨ letterClass c = .upper) ∨ ∀ c ∈ w, letterClass c = .digit

theorem OneKind.of_subset {v w : List Char} (h : OneKind w) (hv : ∀ c ∈ v, c ∈ w) : OneKind v :=
  h.imp (fun h c hc => h c (hv c hc)) fun h c hc => h c (hv c hc)

/-- **Moving capitals loses nothing.** -/
theorem flatten_regroup (rs : List (List Char)) : (regroup rs).flatten = rs.flatten := by
  fun_induction regroup rs with
  | case1 => rfl
  | case2 r => rfl
  | case3 r s rs c d hd hc hclass ih =>
    obtain ⟨r', rfl⟩ := List.getLast?_eq_some_iff.mp hc
    rw [List.flatten_cons, ih, List.dropLast_concat]
    simp
  | case4 r s rs c d hd hc hclass ih => exact congrArg (r ++ ·) ih
  | case5 r s rs hnone ih => exact congrArg (r ++ ·) ih

/-- **Moving capitals leaves runs of one kind**, because a capital only goes to letters. -/
theorem oneKind_of_mem_regroup {rs : List (List Char)} (h : ∀ r ∈ rs, OneKind r) :
    ∀ w ∈ regroup rs, OneKind w := by
  fun_induction regroup rs with
  | case1 => simp
  | case2 r => exact h
  | case3 r s rs c d hd hc hclass ih =>
    rw [List.forall_mem_cons, List.forall_mem_cons] at h
    have hmoved : OneKind (c :: s) := by
      rcases h.2.1 with hs | hs
      · exact Or.inl (List.forall_mem_cons.mpr ⟨Or.inr hclass.1, hs⟩)
      · have hdigit := hs d (List.mem_of_head? hd)
        rw [hclass.2] at hdigit
        cases hdigit
    refine List.forall_mem_cons.mpr ⟨?_, ih (List.forall_mem_cons.mpr ⟨hmoved, h.2.2⟩)⟩
    exact h.1.of_subset fun e he => List.dropLast_subset r he
  | case4 r s rs c d hd hc hclass ih =>
    rw [List.forall_mem_cons] at h
    exact List.forall_mem_cons.mpr ⟨h.1, ih h.2⟩
  | case5 r s rs hnone ih =>
    rw [List.forall_mem_cons] at h
    exact List.forall_mem_cons.mpr ⟨h.1, ih h.2⟩

/-- A run that does not end with a capital stays as it is. -/
theorem regroup_cons_of_getLast? {r : List Char} {c : Char} (hc : r.getLast? = some c)
    (hclass : letterClass c ≠ .upper) (rs : List (List Char)) :
    regroup (r :: rs) = r :: regroup rs := by
  cases rs with
  | nil => rw [regroup, regroup]
  | cons s rs =>
    rw [regroup, hc]
    cases s.head? with
    | none => rfl
    | some d => exact if_neg fun h => hclass h.1

/-- A single capital is moved to the small letters behind it. -/
theorem regroup_capital {c : Char} (hc : letterClass c = .upper) {s : List Char} (hne : s ≠ [])
    (hs : ∀ d ∈ s, letterClass d = .lower) (rs : List (List Char)) :
    regroup ([c] :: s :: rs) = [] :: (c :: s) :: regroup rs := by
  obtain ⟨d, t, rfl⟩ := List.exists_cons_of_ne_nil hne
  have hlast : (c :: d :: t).getLast? = some ((d :: t).getLast (by simp)) := by
    rw [List.getLast?_cons_cons, List.getLast?_eq_getLast_of_ne_nil]
  have hlower := hs _ (List.getLast_mem (l := d :: t) (by simp))
  rw [regroup, List.getLast?_singleton, List.head?_cons]
  dsimp only
  rw [if_pos ⟨hc, hs d List.mem_cons_self⟩,
    regroup_cons_of_getLast? hlast (by rw [hlower]; simp)]
  rfl

/-! ### Words of ASCII -/

theorem between_iff {first last b : UInt8} :
    (decide (first ≤ b) && decide (b ≤ last)) = true ↔
      first.toNat ≤ b.toNat ∧ b.toNat ≤ last.toNat := by
  rw [Bool.and_eq_true, decide_eq_true_iff, decide_eq_true_iff, UInt8.le_iff_toNat_le,
    UInt8.le_iff_toNat_le]

theorem isLowerOctet_iff {b : UInt8} : isLowerOctet b ↔ 0x61 ≤ b.toNat ∧ b.toNat ≤ 0x7a :=
  between_iff

theorem isUpperOctet_iff {b : UInt8} : isUpperOctet b ↔ 0x41 ≤ b.toNat ∧ b.toNat ≤ 0x5a :=
  between_iff

theorem isDigitOctet_iff {b : UInt8} : isDigitOctet b ↔ 0x30 ≤ b.toNat ∧ b.toNat ≤ 0x39 :=
  between_iff

theorem isWordMark_iff {b : UInt8} : isWordMark b ↔ b.toNat = 0x5f ∨ b.toNat = 0x2d := by
  rw [isWordMark, Bool.or_eq_true, beq_iff_eq, beq_iff_eq, ← UInt8.toNat_inj, ← UInt8.toNat_inj]
  rfl

theorem toNat_lowerOctet (b : UInt8) :
    (lowerOctet b).toNat = if isUpperOctet b then b.toNat + 0x20 else b.toNat := by
  rw [lowerOctet]
  split
  · rename_i hupper
    have hbound := isUpperOctet_iff.mp hupper
    have hshift : (32 : UInt8).toNat = 0x20 := rfl
    rw [UInt8.toNat_add, hshift]
    omega
  · rfl

/-- The class of an octet. -/
def octetClass (b : UInt8) : LetterClass :=
  if isLowerOctet b then .lower
  else if isUpperOctet b then .upper
  else if isDigitOctet b then .digit
  else .other

theorem octet_ofNat {b : UInt8} (hb : b.toNat < 0x80) : octet (Char.ofNat b.toNat) = b := by
  rw [octet, Utf8.toNat_ofNat_of_lt hb]
  simp

section Class

variable {b : UInt8}

theorem octetClass_eq_lower_iff : octetClass b = .lower ↔ isLowerOctet b := by
  rw [octetClass]
  split_ifs <;> simp_all

theorem octetClass_eq_upper_iff : octetClass b = .upper ↔ isUpperOctet b := by
  rw [octetClass]
  split_ifs with hlower
  · rw [isLowerOctet_iff] at hlower
    simp only [isUpperOctet_iff, false_iff]
    omega
  all_goals simp_all

theorem octetClass_eq_digit_iff : octetClass b = .digit ↔ isDigitOctet b := by
  rw [octetClass]
  split_ifs with hlower hupper
  · rw [isLowerOctet_iff] at hlower
    simp only [isDigitOctet_iff, false_iff]
    omega
  · rw [isUpperOctet_iff] at hupper
    simp only [isDigitOctet_iff, false_iff]
    omega
  all_goals simp_all

end Class

theorem letterClass_of_lt {c : Char} (hc : c.toNat < 0x80) :
    letterClass c = octetClass (octet c) := by
  have hall : ∀ k < 0x80, letterClass (Char.ofNat k) = octetClass (octet (Char.ofNat k)) := by
    decide +kernel
  have hchar := hall c.toNat hc
  rwa [Char.ofNat_toNat] at hchar

theorem letterClass_ofNat {b : UInt8} (hb : b.toNat < 0x80) :
    letterClass (Char.ofNat b.toNat) = octetClass b := by
  have hlt : (Char.ofNat b.toNat).toNat < 0x80 := by rwa [Utf8.toNat_ofNat_of_lt hb]
  rw [letterClass_of_lt hlt, octet_ofNat hb]

/-- Without its word marks, a name has letters and digits only. -/
theorem octetClass_ne_other {b : UInt8} (hb : isNameOctet b) (hmark : isWordMark b = false) :
    octetClass b ≠ .other := by
  simp only [isNameOctet, isIdentOctet, isAlphaOctet, Bool.or_eq_true] at hb
  simp only [isWordMark, Bool.or_eq_false_iff] at hmark
  rw [octetClass]
  split_ifs <;> simp_all

theorem encode_lowerChar {c : Char} (hc : c.toNat < 0x80) :
    Utf8.encode (lowerChar c) = [lowerOctet (octet c)] := by
  have hall : ∀ k < 0x80,
      Utf8.encode (lowerChar (Char.ofNat k)) = [lowerOctet (octet (Char.ofNat k))] := by
    decide +kernel
  have hchar := hall c.toNat hc
  rwa [Char.ofNat_toNat] at hchar

theorem lowered_of_ascii {w : List Char} (h : ∀ c ∈ w, c.toNat < 0x80) :
    lowered w = w.map fun c => lowerOctet (octet c) := by
  induction w with
  | nil => rfl
  | cons c w ih =>
    rw [List.forall_mem_cons] at h
    have hcons : lowered (c :: w) = Utf8.encode (lowerChar c) ++ lowered w := rfl
    rw [hcons, encode_lowerChar h.1, ih h.2]
    rfl

/-- **The form of a stored word**: small letters only, or digits only. -/
def isPlain (w : Bytes) : Bool := !w.isEmpty && (w.all isLowerOctet || w.all isDigitOctet)

/-- A small letter or a digit is the one of its class. -/
theorem octetClass_lowerOctet (b : UInt8) :
    (octetClass b = .lower ∨ octetClass b = .upper → isLowerOctet (lowerOctet b)) ∧
    (octetClass b = .digit → isDigitOctet (lowerOctet b)) := by
  have htoNat := toNat_lowerOctet b
  rw [octetClass_eq_lower_iff, octetClass_eq_upper_iff, octetClass_eq_digit_iff]
  simp only [isLowerOctet_iff, isUpperOctet_iff, isDigitOctet_iff] at htoNat ⊢
  split at htoNat <;> omega

/-- Characters of one kind are stored as a plain word. -/
theorem isPlain_lowered {w : List Char} (hne : w ≠ []) (hascii : ∀ c ∈ w, c.toNat < 0x80)
    (h : OneKind w) : isPlain (lowered w) := by
  have hempty : (lowered w).isEmpty = false := by
    rw [lowered_of_ascii hascii, List.isEmpty_eq_false_iff]
    exact fun hnil => hne (List.map_eq_nil_iff.mp hnil)
  rw [isPlain, hempty, Bool.not_false, Bool.true_and, Bool.or_eq_true, lowered_of_ascii hascii,
    List.all_map, List.all_map, List.all_eq_true, List.all_eq_true]
  refine h.imp (fun h c hc => ?_) fun h c hc => ?_
  · refine (octetClass_lowerOctet _).1 ?_
    rw [← letterClass_of_lt (hascii c hc)]
    exact h c hc
  · refine (octetClass_lowerOctet _).2 ?_
    rw [← letterClass_of_lt (hascii c hc)]
    exact h c hc

/-- The characters of a text of ASCII. -/
def letters (part : Bytes) : List Char := part.map fun b => Char.ofNat b.toNat

section Part

variable {part : Bytes} (hascii : ∀ b ∈ part, b.toNat < 0x80)

include hascii

theorem camelWords_of_ascii :
    camelWords part = (regroup (runs (letters part))).filter (!·.isEmpty) := by
  have hvalid : Utf8.isValid part := Utf8.isValid_of_ascii (by simpa using hascii)
  have hletters : Utf8.lossy part = letters part := by
    rw [Utf8.lossy, Utf8.chars_of_ascii hascii, List.map_map]
    rfl
  rw [camelWords, if_pos hvalid, hletters]

/-- **The words of a part are the part**, one after another. -/
theorem flatten_camelWords : (camelWords part).flatten = letters part := by
  rw [camelWords_of_ascii hascii, List.flatten_filter_not_isEmpty, flatten_regroup, flatten_runs]

theorem toNat_lt_of_mem_camelWords {w : List Char} (hw : w ∈ camelWords part) :
    ∀ c ∈ w, c.toNat < 0x80 := by
  intro c hc
  have hmem : c ∈ letters part := by
    rw [← flatten_camelWords hascii]
    exact List.mem_flatten_of_mem hw hc
  obtain ⟨b, hb, rfl⟩ := List.mem_map.mp hmem
  rw [Utf8.toNat_ofNat_of_lt (hascii b hb)]
  exact hascii b hb

theorem flatten_map_lowered_camelWords :
    ((camelWords part).map lowered).flatten = part.map lowerOctet := by
  have hlowered : (camelWords part).map lowered =
      (camelWords part).map (List.map fun c => lowerOctet (octet c)) :=
    List.map_congr_left fun w hw => lowered_of_ascii (toNat_lt_of_mem_camelWords hascii hw)
  rw [hlowered, ← List.map_flatten, flatten_camelWords hascii, letters, List.map_map]
  refine List.map_congr_left fun b hb => ?_
  rw [Function.comp_apply, octet_ofNat (hascii b hb)]

end Part

/-! ### Parts between word marks -/

/-- **Cutting at word marks loses nothing else.** -/
theorem flatten_partsFrom (part s : Bytes) :
    (partsFrom part s).flatten = part ++ s.filter (!isWordMark ·) := by
  induction s generalizing part with
  | nil =>
    rw [partsFrom]
    split
    · rename_i hempty
      rw [List.isEmpty_iff.mp hempty]
      rfl
    · simp
  | cons b s ih =>
    rw [partsFrom]
    split
    · rename_i hb
      rw [List.filter_cons_of_neg (by simp [hb])]
      split
      · rename_i hempty
        rw [ih, List.isEmpty_iff.mp hempty]
      · rw [List.flatten_cons, ih, List.nil_append]
    · rename_i hb
      rw [ih, List.filter_cons_of_pos (by simpa using hb), List.append_assoc]
      rfl

theorem flatten_parts (name : Bytes) : (parts name).flatten = name.filter (!isWordMark ·) :=
  flatten_partsFrom [] name

/-- The octets of a part are in the name. -/
theorem mem_of_mem_parts {name w : Bytes} (h : w ∈ parts name) {b : UInt8} (hb : b ∈ w) :
    b ∈ name ∧ isWordMark b = false := by
  have hmem := List.mem_flatten_of_mem h hb
  rw [flatten_parts, List.mem_filter] at hmem
  exact ⟨hmem.1, by simpa using hmem.2⟩

/-- A word without marks is read whole. -/
theorem partsFrom_append {w : Bytes} (hw : ∀ b ∈ w, isWordMark b = false) (part s : Bytes) :
    partsFrom part (w ++ s) = partsFrom (part ++ w) s := by
  induction w generalizing part with
  | nil => rw [List.nil_append, List.append_nil]
  | cons b w ih =>
    rw [List.forall_mem_cons] at hw
    rw [List.cons_append, partsFrom, if_neg (by simp [hw.1]), ih hw.2, List.append_assoc]
    rfl

section Mark

variable {m : UInt8} (hm : isWordMark m)

include hm

/-- A mark in front does not count. -/
theorem parts_cons_mark (s : Bytes) : parts (m :: s) = parts s := by
  rw [parts, partsFrom, if_pos hm]
  rfl

/-- **Words are cut apart where they were joined**, by either mark. -/
theorem parts_intercalate {ws : List Bytes}
    (h : ∀ w ∈ ws, w ≠ [] ∧ ∀ b ∈ w, isWordMark b = false) :
    parts (List.intercalate [m] ws) = ws := by
  induction ws with
  | nil => rfl
  | cons w ws ih =>
    rw [List.forall_mem_cons] at h
    have hempty : w.isEmpty = false := List.isEmpty_eq_false_iff.mpr h.1.1
    cases ws with
    | nil =>
      have hlast := partsFrom_append h.1.2 [] []
      rw [List.append_nil] at hlast
      rw [List.intercalate_singleton, parts, hlast, List.nil_append, partsFrom, hempty]
      rfl
    | cons v ws =>
      rw [List.intercalate_cons_cons, List.append_assoc, parts, partsFrom_append h.1.2,
        List.nil_append, List.singleton_append, partsFrom, if_pos hm, hempty]
      exact congrArg (w :: ·) (ih h.2)

end Mark

/-! ### The words of a name -/

/-- The words of a name, in small letters. -/
def nameWords (name : Bytes) : List Bytes := ((parts name).flatMap camelWords).map lowered

/-- The number of dashes in front of a stored name. -/
def leadingDashes (name : Bytes) : Nat := if name.head? = some (octet '-') then 1 else 0

/-- **The stored form of a name** is its words, joined by dashes, behind at most one dash. -/
theorem propertyName_eq (name : Bytes) : propertyName name =
    List.replicate (leadingDashes name) (octet '-') ++
      List.intercalate (utf8 "-") (nameWords name) := by
  rw [propertyName, leadingDashes]
  split <;> rfl

theorem nameWords_eq (name : Bytes) :
    nameWords name = (parts name).flatMap fun part => (camelWords part).map lowered :=
  List.map_flatMap

section Name

variable {name : Bytes} (h : ∀ b ∈ name, isNameOctet b)

include h

/-- **The words of a name are plain.** -/
theorem isPlain_of_mem_nameWords : ∀ w ∈ nameWords name, isPlain w := by
  intro v hv
  rw [nameWords_eq] at hv
  obtain ⟨part, hpart, hv⟩ := List.mem_flatMap.mp hv
  obtain ⟨w, hw, rfl⟩ := List.mem_map.mp hv
  have hascii : ∀ b ∈ part, b.toNat < 0x80 := fun b hb =>
    toNat_lt_of_isNameOctet (h b (mem_of_mem_parts hpart hb).1)
  have hwords := hw
  rw [camelWords_of_ascii hascii, List.mem_filter] at hwords
  have hne : w ≠ [] := by simpa using hwords.2
  have hclass : ∀ c ∈ letters part, letterClass c ≠ .other := by
    rintro c hc
    obtain ⟨b, hb, rfl⟩ := List.mem_map.mp hc
    obtain ⟨hname, hmark⟩ := mem_of_mem_parts hpart hb
    rw [letterClass_ofNat (hascii b hb)]
    exact octetClass_ne_other (h b hname) hmark
  refine isPlain_lowered hne (toNat_lt_of_mem_camelWords hascii hw)
    (oneKind_of_mem_regroup (fun r hr => ?_) w hwords.1)
  obtain ⟨hrne, k, hk⟩ := exists_class_of_mem_runs hr
  obtain ⟨c, hc⟩ := List.exists_mem_of_ne_nil r hrne
  cases k with
  | lower => exact Or.inl fun c hc => Or.inl (hk c hc)
  | upper => exact Or.inl fun c hc => Or.inr (hk c hc)
  | digit => exact Or.inr hk
  | other =>
    refine absurd (hk c hc) (hclass c ?_)
    rw [← flatten_runs (letters part)]
    exact List.mem_flatten_of_mem hr hc

/-- **The words of a name are its letters and digits**, one after another and in small letters. -/
theorem flatten_nameWords :
    (nameWords name).flatten = (name.filter (!isWordMark ·)).map lowerOctet := by
  have hparts : (parts name).map (fun part => ((camelWords part).map lowered).flatten) =
      (parts name).map (List.map lowerOctet) :=
    List.map_congr_left fun part hpart => flatten_map_lowered_camelWords fun b hb =>
      toNat_lt_of_isNameOctet (h b (mem_of_mem_parts hpart hb).1)
  calc (nameWords name).flatten
      = ((parts name).map fun part => ((camelWords part).map lowered).flatten).flatten := by
        rw [nameWords_eq, List.flatMap_def, List.flatten_flatten, List.map_map]
        rfl
    _ = (parts name).flatten.map lowerOctet := by rw [hparts, List.map_flatten]
    _ = (name.filter (!isWordMark ·)).map lowerOctet := by rw [flatten_parts]

end Name

/-! ### Stored names -/

/-- A small letter or a digit is stored as it is. -/
theorem lowerOctet_of_stored {b : UInt8} (h : isLowerOctet b ∨ isDigitOctet b) :
    lowerOctet b = b ∧ isWordMark b = false ∧ b.toNat < 0x80 := by
  rw [isLowerOctet_iff, isDigitOctet_iff] at h
  have hupper : ¬isUpperOctet b := by
    rw [isUpperOctet_iff]
    omega
  have hmark : ¬isWordMark b := by
    rw [isWordMark_iff]
    omega
  exact ⟨if_neg hupper, Bool.eq_false_iff.mpr hmark, by omega⟩

theorem isPlain_iff {w : Bytes} : isPlain w ↔
    w ≠ [] ∧ ((∀ b ∈ w, isLowerOctet b) ∨ ∀ b ∈ w, isDigitOctet b) := by
  simp [isPlain]

theorem stored_of_isPlain {w : Bytes} (h : isPlain w) :
    ∀ b ∈ w, isLowerOctet b ∨ isDigitOctet b := by
  intro b hb
  exact (isPlain_iff.mp h).2.imp (fun h => h b hb) fun h => h b hb

theorem map_lowerOctet {w : Bytes} (h : ∀ b ∈ w, isLowerOctet b ∨ isDigitOctet b) :
    w.map lowerOctet = w := by
  conv_rhs => rw [← List.map_id w]
  exact List.map_congr_left fun b hb => (lowerOctet_of_stored (h b hb)).1

theorem lowered_letters {w : Bytes} (hascii : ∀ b ∈ w, b.toNat < 0x80) :
    lowered (letters w) = w.map lowerOctet := by
  have hlt : ∀ c ∈ letters w, c.toNat < 0x80 := by
    intro c hc
    obtain ⟨b, hb, rfl⟩ := List.mem_map.mp hc
    rw [Utf8.toNat_ofNat_of_lt (hascii b hb)]
    exact hascii b hb
  rw [lowered_of_ascii hlt, letters, List.map_map]
  refine List.map_congr_left fun b hb => ?_
  rw [Function.comp_apply, octet_ofNat (hascii b hb)]

/-- **A plain word is one word.** -/
theorem camelWords_of_isPlain {w : Bytes} (h : isPlain w) : (camelWords w).map lowered = [w] := by
  have hstored := stored_of_isPlain h
  have hascii : ∀ b ∈ w, b.toNat < 0x80 := fun b hb => (lowerOctet_of_stored (hstored b hb)).2.2
  obtain ⟨hne, hkind⟩ := isPlain_iff.mp h
  have hletters : letters w ≠ [] := fun hnil => hne (List.map_eq_nil_iff.mp hnil)
  have hclass : ∃ k, ∀ c ∈ letters w, letterClass c = k := by
    have hoctets : ∃ k, ∀ b ∈ w, octetClass b = k := by
      rcases hkind with hlower | hdigit
      · exact ⟨.lower, fun b hb => if_pos (hlower b hb)⟩
      · exact ⟨.digit, fun b hb => octetClass_eq_digit_iff.mpr (hdigit b hb)⟩
    obtain ⟨k, hk⟩ := hoctets
    refine ⟨k, fun c hc => ?_⟩
    obtain ⟨b, hb, rfl⟩ := List.mem_map.mp hc
    rw [letterClass_ofNat (hascii b hb)]
    exact hk b hb
  obtain ⟨k, hk⟩ := hclass
  have hruns : runs (letters w) = [letters w] := by
    have happend : runs (letters w ++ []) = letters w :: runs [] :=
      runs_append hletters hk (by simp)
    rwa [List.append_nil] at happend
  rw [camelWords_of_ascii hascii, hruns, regroup, List.filter_cons_of_pos (by simpa using hletters),
    List.filter_nil, List.map_singleton, lowered_letters hascii, map_lowerOctet hstored]

/-- **Plain words are the words of the name they are joined to**, by either mark. -/
theorem nameWords_intercalate {m : UInt8} (hm : isWordMark m) {ws : List Bytes}
    (h : ∀ w ∈ ws, isPlain w) : nameWords (List.intercalate [m] ws) = ws := by
  have hparts : parts (List.intercalate [m] ws) = ws := parts_intercalate hm fun w hw =>
    ⟨(isPlain_iff.mp (h w hw)).1, fun b hb =>
      (lowerOctet_of_stored (stored_of_isPlain (h w hw) b hb)).2.1⟩
  rw [nameWords_eq, hparts, List.flatMap_congr fun w hw => camelWords_of_isPlain (h w hw),
    List.flatMap_singleton']

theorem nameWords_replicate_append (k : Nat) (s : Bytes) :
    nameWords (List.replicate k (octet '-') ++ s) = nameWords s := by
  induction k with
  | zero => rfl
  | succ k ih =>
    rw [List.replicate_succ, List.cons_append, nameWords, parts_cons_mark (by decide)]
    exact ih

/-- No dash stands in front of a plain word. -/
theorem leadingDashes_append {w : Bytes} (h : isPlain w) (s : Bytes) :
    leadingDashes (w ++ s) = 0 := by
  obtain ⟨b, r, rfl⟩ := List.exists_cons_of_ne_nil (isPlain_iff.mp h).1
  refine if_neg fun hhead => ?_
  obtain rfl : b = octet '-' := Option.some.inj hhead
  exact absurd (stored_of_isPlain h _ List.mem_cons_self) (by decide)

theorem leadingDashes_intercalate (sep : Bytes) {ws : List Bytes} (h : ∀ w ∈ ws, isPlain w) :
    leadingDashes (List.intercalate sep ws) = 0 := by
  rcases ws with - | ⟨w, - | ⟨v, ws⟩⟩
  · rfl
  · rw [List.intercalate_singleton, ← List.append_nil w]
    exact leadingDashes_append (h w List.mem_cons_self) []
  · rw [List.intercalate_cons_cons, List.append_assoc]
    exact leadingDashes_append (h w List.mem_cons_self) _

/-- **Stored names are kept**, but for dashes in front of which one is left. -/
theorem propertyName_replicate_append_intercalate (k : Nat) {ws : List Bytes}
    (h : ∀ w ∈ ws, isPlain w) :
    propertyName (List.replicate k (octet '-') ++ List.intercalate (utf8 "-") ws) =
      List.replicate (min k 1) (octet '-') ++ List.intercalate (utf8 "-") ws := by
  have hwords : nameWords (List.intercalate (utf8 "-") ws) = ws :=
    nameWords_intercalate (m := octet '-') (by decide) h
  have hdashes : leadingDashes (List.replicate k (octet '-') ++ List.intercalate (utf8 "-") ws) =
      min k 1 := by
    cases k with
    | succ k => rw [leadingDashes, List.replicate_succ, List.cons_append, List.head?_cons,
        if_pos rfl, Nat.min_eq_right (by omega)]
    | zero =>
      rw [List.replicate_zero, List.nil_append, leadingDashes_intercalate _ h, Nat.zero_min]
  rw [propertyName_eq, nameWords_replicate_append, hwords, hdashes]

/-- Whether a text can be written for a name: a letter or a mark, then digits too. -/
def isWrittenName (s : Bytes) : Bool := isWord isNameStart isNameOctet s

theorem isNameOctet_of_isNameStart {b : UInt8} (h : isNameStart b) : isNameOctet b := by
  simp only [isNameStart, Bool.or_eq_true] at h
  rcases h with (h | h) | h <;> simp [isNameOctet, isIdentOctet, h]

theorem isNameOctet_of_isWrittenName {name : Bytes} (h : isWrittenName name) :
    ∀ b ∈ name, isNameOctet b :=
  forall_mem_of_isWord (fun _ => isNameOctet_of_isNameStart) (fun _ hb => hb) h

/-! ### Spellings -/

/-- The capital of a small letter. -/
def upperOctet (b : UInt8) : UInt8 := if isLowerOctet b then b - 32 else b

/-- A word with a capital in front. -/
def capitalized : Bytes → Bytes
  | [] => []
  | b :: r => upperOctet b :: r

/-- Words one after another, all but the first with a capital in front. -/
def camelCase : List Bytes → Bytes
  | [] => []
  | w :: ws => w ++ ws.flatMap capitalized

/-- Words joined by underscores. -/
def snakeCase (ws : List Bytes) : Bytes := List.intercalate (utf8 "_") ws

/-- Words joined by dashes. -/
def kebabCase (ws : List Bytes) : Bytes := List.intercalate (utf8 "-") ws

/-- Whether a word has small letters only, and two of them at least. -/
def isHump (w : Bytes) : Bool := 2 ≤ w.length && w.all isLowerOctet

theorem isHump_iff {w : Bytes} : isHump w ↔ 2 ≤ w.length ∧ ∀ b ∈ w, isLowerOctet b := by
  simp [isHump]

theorem isPlain_of_isHump {w : Bytes} (h : isHump w) : isPlain w := by
  obtain ⟨hlength, hlower⟩ := isHump_iff.mp h
  refine isPlain_iff.mpr ⟨?_, Or.inl hlower⟩
  rintro rfl
  exact absurd hlength (by decide)

/-- A word in camel case: a small letter, of which the capital is written, and more of them. -/
theorem exists_of_isHump {w : Bytes} (h : isHump w) :
    ∃ b r, w = b :: r ∧ isLowerOctet b ∧ r ≠ [] ∧ ∀ c ∈ r, isLowerOctet c := by
  obtain ⟨hlength, hlower⟩ := isHump_iff.mp h
  rcases w with - | ⟨b, r⟩
  · exact absurd hlength (by decide)
  · rw [List.forall_mem_cons] at hlower
    refine ⟨b, r, rfl, hlower.1, ?_, hlower.2⟩
    rintro rfl
    exact absurd hlength (by simp)

/-- A capital stands for its small letter. -/
theorem upperOctet_of_isLowerOctet {b : UInt8} (h : isLowerOctet b) :
    octetClass (upperOctet b) = .upper ∧ lowerOctet (upperOctet b) = b ∧
      isWordMark (upperOctet b) = false ∧ (upperOctet b).toNat < 0x80 := by
  have hbound := isLowerOctet_iff.mp h
  have hshift : (32 : UInt8).toNat = 0x20 := rfl
  have htoNat : (upperOctet b).toNat = b.toNat - 0x20 := by
    rw [upperOctet, if_pos h, UInt8.toNat_sub_of_le _ _ (UInt8.le_iff_toNat_le.mpr (by omega)),
      hshift]
  have hupper : isUpperOctet (upperOctet b) := by
    rw [isUpperOctet_iff]
    omega
  have hmark : ¬isWordMark (upperOctet b) := by
    rw [isWordMark_iff]
    omega
  refine ⟨octetClass_eq_upper_iff.mpr hupper, ?_, Bool.eq_false_iff.mpr hmark, by omega⟩
  rw [← UInt8.toNat_inj, toNat_lowerOctet, if_pos hupper]
  omega

theorem letterClass_capital {b : UInt8} (h : isLowerOctet b) :
    letterClass (Char.ofNat (upperOctet b).toNat) = .upper := by
  obtain ⟨hclass, -, -, hascii⟩ := upperOctet_of_isLowerOctet h
  rw [letterClass_ofNat hascii, hclass]

theorem letterClass_of_mem_letters {w : Bytes} (h : ∀ b ∈ w, isLowerOctet b) :
    ∀ c ∈ letters w, letterClass c = .lower := by
  intro c hc
  obtain ⟨b, hb, rfl⟩ := List.mem_map.mp hc
  rw [letterClass_ofNat (lowerOctet_of_stored (Or.inl (h b hb))).2.2]
  exact if_pos (h b hb)

section Humps

variable {ws : List Bytes} (h : ∀ w ∈ ws, isHump w)

include h

/-- Words in camel case start with a capital. -/
theorem letterClass_of_head?_humps {c : Char}
    (hc : (letters (ws.flatMap capitalized)).head? = some c) : letterClass c = .upper := by
  rcases ws with - | ⟨w, ws⟩
  · cases hc
  · obtain ⟨b, r, rfl, hb, -, -⟩ := exists_of_isHump (h w List.mem_cons_self)
    obtain rfl : Char.ofNat (upperOctet b).toNat = c := Option.some.inj hc
    exact letterClass_capital hb

/-- Small letters in front of words in camel case are a run. -/
theorem runs_append_humps {r : Bytes} (hne : r ≠ []) (hr : ∀ b ∈ r, isLowerOctet b) :
    runs (letters r ++ letters (ws.flatMap capitalized)) =
      letters r :: runs (letters (ws.flatMap capitalized)) := by
  refine runs_append (fun hnil => hne (List.map_eq_nil_iff.mp hnil))
    (letterClass_of_mem_letters hr) fun d hd => ?_
  rw [letterClass_of_head?_humps h hd]
  simp

/-- **Words in camel case are cut at their capitals.** -/
theorem regroup_runs_humps :
    (regroup (runs (letters (ws.flatMap capitalized)))).filter (!·.isEmpty) =
      ws.map fun w => letters (capitalized w) := by
  induction ws with
  | nil =>
    have hnil : runs (letters ([].flatMap capitalized)) = [] := rfl
    rw [hnil, regroup]
    rfl
  | cons w ws ih =>
    rw [List.forall_mem_cons] at h
    obtain ⟨b, r, rfl, hb, hne, hr⟩ := exists_of_isHump h.1
    have hlower := letterClass_of_mem_letters hr
    have hletters : letters r ≠ [] := fun hnil => hne (List.map_eq_nil_iff.mp hnil)
    -- The capital is a run of its own, and so are the letters behind it.
    have hruns : runs (letters (((b :: r) :: ws).flatMap capitalized)) =
        [Char.ofNat (upperOctet b).toNat] :: letters r ::
          runs (letters (ws.flatMap capitalized)) := by
      have hsplit : letters (((b :: r) :: ws).flatMap capitalized) =
          [Char.ofNat (upperOctet b).toNat] ++
            (letters r ++ letters (ws.flatMap capitalized)) := by
        rw [List.flatMap_cons, letters, List.map_append]
        rfl
      rw [hsplit, ← runs_append_humps h.2 hne hr]
      refine runs_append (by simp) (List.forall_mem_singleton.mpr (letterClass_capital hb))
        fun d hd => ?_
      rw [List.head?_append_of_ne_nil _ hletters] at hd
      rw [hlower d (List.mem_of_head? hd)]
      simp
    rw [hruns, regroup_capital (letterClass_capital hb) hletters hlower,
      List.filter_cons_of_neg (by simp), List.filter_cons_of_pos (by simp), ih h.2]
    rfl

end Humps

/-- A capitalized word is stored as the word. -/
theorem map_lowerOctet_capitalized {w : Bytes} (h : isHump w) :
    (capitalized w).map lowerOctet = w := by
  obtain ⟨b, r, rfl, hb, -, hr⟩ := exists_of_isHump h
  rw [capitalized, List.map_cons, (upperOctet_of_isLowerOctet hb).2.1,
    map_lowerOctet fun c hc => Or.inl (hr c hc)]

theorem forall_mem_capitalized {w : Bytes} (h : isHump w) :
    ∀ b ∈ capitalized w, isWordMark b = false ∧ b.toNat < 0x80 := by
  obtain ⟨b, r, rfl, hb, -, hr⟩ := exists_of_isHump h
  exact List.forall_mem_cons.mpr ⟨(upperOctet_of_isLowerOctet hb).2.2,
    fun c hc => (lowerOctet_of_stored (Or.inl (hr c hc))).2⟩

/-- **The words of a name in camel case.** -/
theorem nameWords_camelCase {ws : List Bytes} (h : ∀ w ∈ ws, isHump w) :
    nameWords (camelCase ws) = ws := by
  rcases ws with - | ⟨w, ws⟩
  · rfl
  rw [List.forall_mem_cons] at h
  obtain ⟨hne, -⟩ := isPlain_iff.mp (isPlain_of_isHump h.1)
  have hlower := (isHump_iff.mp h.1).2
  have hstored : ∀ b ∈ w, isLowerOctet b ∨ isDigitOctet b := fun b hb => Or.inl (hlower b hb)
  have hoctets : ∀ b ∈ camelCase (w :: ws), isWordMark b = false ∧ b.toNat < 0x80 := by
    intro b hb
    rcases List.mem_append.mp hb with hb | hb
    · exact (lowerOctet_of_stored (hstored b hb)).2
    · obtain ⟨v, hv, hb⟩ := List.mem_flatMap.mp hb
      exact forall_mem_capitalized (h.2 v hv) b hb
  have hparts : parts (camelCase (w :: ws)) = [camelCase (w :: ws)] := by
    have hone := parts_intercalate (m := octet '_') (by decide) (List.forall_mem_singleton.mpr
      ⟨List.append_ne_nil_of_left_ne_nil hne _, fun b hb => (hoctets b hb).1⟩)
    rwa [List.intercalate_singleton] at hone
  -- The first word is a run, and its last letter is no capital that could be moved.
  have hruns : regroup (runs (letters (camelCase (w :: ws)))) =
      letters w :: regroup (runs (letters (ws.flatMap capitalized))) := by
    have hsplit : letters (camelCase (w :: ws)) =
        letters w ++ letters (ws.flatMap capitalized) := List.map_append
    have hletters : letters w ≠ [] := fun hnil => hne (List.map_eq_nil_iff.mp hnil)
    have hlast := letterClass_of_mem_letters hlower _ (List.getLast_mem hletters)
    rw [hsplit, runs_append_humps h.2 hne hlower,
      regroup_cons_of_getLast? (List.getLast?_eq_getLast_of_ne_nil hletters) (by rw [hlast]; simp)]
  have hwords : camelWords (camelCase (w :: ws)) =
      letters w :: ws.map fun v => letters (capitalized v) := by
    rw [camelWords_of_ascii fun b hb => (hoctets b hb).2, hruns,
      List.filter_cons_of_pos (by simpa [letters] using hne), regroup_runs_humps h.2]
  have hlowered : ws.map (fun v => lowered (letters (capitalized v))) = ws := by
    conv_rhs => rw [← List.map_id ws]
    refine List.map_congr_left fun v hv => ?_
    rw [lowered_letters fun b hb => (forall_mem_capitalized (h.2 v hv) b hb).2]
    exact map_lowerOctet_capitalized (h.2 v hv)
  rw [nameWords_eq, hparts, List.flatMap_singleton, hwords, List.map_cons, List.map_map,
    lowered_letters fun b hb => (lowerOctet_of_stored (hstored b hb)).2.2, map_lowerOctet hstored]
  exact congrArg (w :: ·) hlowered

/-- **Storing a name twice is storing it once**, and snake case, camel case and kebab case are
three spellings of one name: the words joined by dashes. Camel case needs a second letter in each
word, as otherwise capitals come together. -/
theorem spellings_agree :
    (∀ name, isWrittenName name → propertyName (propertyName name) = propertyName name) ∧
    ∀ ws : List Bytes, (∀ w ∈ ws, isHump w) →
      propertyName (snakeCase ws) = kebabCase ws ∧
      propertyName (camelCase ws) = kebabCase ws ∧
      propertyName (kebabCase ws) = kebabCase ws := by
  constructor
  · intro name hname
    have hplain := isPlain_of_mem_nameWords (isNameOctet_of_isWrittenName hname)
    have hdashes : min (leadingDashes name) 1 = leadingDashes name := by
      rw [leadingDashes]
      split <;> rfl
    rw [propertyName_eq name, propertyName_replicate_append_intercalate _ hplain, hdashes]
  · intro ws hws
    have hplain : ∀ w ∈ ws, isPlain w := fun w hw => isPlain_of_isHump (hws w hw)
    have hspelt {name : Bytes} (hdashes : leadingDashes name = 0) (hwords : nameWords name = ws) :
        propertyName name = kebabCase ws := by
      rw [propertyName_eq, hdashes, hwords]
      rfl
    have hsnake := nameWords_intercalate (m := octet '_') rfl hplain
    have hkebab := nameWords_intercalate (m := octet '-') rfl hplain
    refine ⟨hspelt (leadingDashes_intercalate _ hplain) hsnake,
      hspelt ?_ (nameWords_camelCase hws),
      hspelt (leadingDashes_intercalate _ hplain) hkebab⟩
    rcases ws with - | ⟨w, ws⟩
    · rfl
    · exact leadingDashes_append (hplain w List.mem_cons_self) _

/-- A name with capitals, digits and marks in a row, and a name of two words in its spellings. -/
theorem spellings_agree_mixed :
    isWrittenName (utf8 "--_HTML5Video__") ∧
    propertyName (propertyName (utf8 "--_HTML5Video__")) = propertyName (utf8 "--_HTML5Video__") ∧
    (∀ w ∈ [utf8 "margin", utf8 "top"], isHump w) ∧
    propertyName (utf8 "margin_top") = utf8 "margin-top" ∧
    propertyName (utf8 "marginTop") = utf8 "margin-top" ∧
    propertyName (utf8 "margin-top") = utf8 "margin-top" := by
  have hname : isWrittenName (utf8 "--_HTML5Video__") := by decide
  have hwords : ∀ w ∈ [utf8 "margin", utf8 "top"], isHump w := by decide
  exact ⟨hname, spellings_agree.1 _ hname, hwords, spellings_agree.2 _ hwords⟩

end Style

end LiveMarkup
