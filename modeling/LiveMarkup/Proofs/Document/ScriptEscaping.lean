import LiveMarkup.Proofs.Document.ScriptLines
import LiveMarkup.Proofs.StatementForms

/-!
# An escaped script holds no markup

Inside a script element two texts are dangerous: `</`, which may end the element, and `<!--`, which
starts a comment. Escaping puts a backslash behind the `<` of each. Whether it does so is decided by
what stands behind the `<` in the text, but the statement is about what stands behind it in the
result. The two agree because escaping changes nothing in front of the next `<`: a text without `<`
starts the result just if it starts the text (`LiveMarkup.Script.isPrefix_escape_iff`). From this,
one induction each gives that no dangerous text is left
(`LiveMarkup.Script.not_isInfix_escape`), that a text without one is left alone
(`LiveMarkup.Script.escape_of_not_isInfix`), and that taking the backslashes out again restores a
text that had none of them (`LiveMarkup.Script.replaceAll_escape`).
-/

namespace LiveMarkup

namespace Bytes

/-! ### Replacing texts -/

/-- The text behind its first `skip` octets with the first text of each pair replaced by the second.
-/
def replaceFrom (pairs : List (Bytes × Bytes)) : Nat → Bytes → Bytes
  | _, [] => []
  | skip + 1, _ :: s => replaceFrom pairs skip s
  | 0, b :: s =>
    match pairs.find? fun p => p.1.isPrefixOf (b :: s) with
    | some p => p.2 ++ replaceFrom pairs (p.1.length - 1) s
    | none => b :: replaceFrom pairs 0 s

/-- The text with the first text of each pair replaced by the second, from left to right and for all
pairs at once: what has been replaced is not looked at again. -/
def replaceAll (pairs : List (Bytes × Bytes)) (s : Bytes) : Bytes :=
  replaceFrom pairs 0 s

section ReplaceAll

variable {pairs : List (Bytes × Bytes)}

theorem replaceFrom_length_append (pairs : List (Bytes × Bytes)) (p s : Bytes) :
    replaceFrom pairs p.length (p ++ s) = replaceAll pairs s := by
  induction p with
  | nil => rfl
  | cons b p ih => rw [List.length_cons, List.cons_append, replaceFrom, ih]

/-- Where just one pair matches, it is replaced. -/
theorem replaceAll_append {old new s : Bytes} (hp : (old, new) ∈ pairs) (hne : old ≠ [])
    (honly : ∀ q ∈ pairs, q.1 <+: old ++ s → q = (old, new)) :
    replaceAll pairs (old ++ s) = new ++ replaceAll pairs s := by
  obtain ⟨b, old, rfl⟩ := List.exists_cons_of_ne_nil hne
  have hfind : (pairs.find? fun q => q.1.isPrefixOf (b :: (old ++ s))) = some (b :: old, new) := by
    obtain ⟨q, hq⟩ : ∃ q, (pairs.find? fun q => q.1.isPrefixOf (b :: (old ++ s))) = some q := by
      rw [← Option.isSome_iff_exists, List.find?_isSome]
      exact ⟨_, hp, List.isPrefixOf_iff_prefix.mpr (List.prefix_append (b :: old) s)⟩
    have hstarts := List.find?_some hq
    rw [hq, honly q (List.mem_of_find?_eq_some hq) (List.isPrefixOf_iff_prefix.mp hstarts)]
  rw [replaceAll, List.cons_append, replaceFrom, hfind]
  exact congrArg (new ++ ·) (replaceFrom_length_append pairs old s)

/-- Where no pair matches, the text is kept. -/
theorem replaceAll_cons {b : UInt8} {s : Bytes} (h : ∀ q ∈ pairs, ¬q.1 <+: b :: s) :
    replaceAll pairs (b :: s) = b :: replaceAll pairs s := by
  have hfind : (pairs.find? fun q => q.1.isPrefixOf (b :: s)) = none := by
    rw [List.find?_eq_none]
    intro q hq hstarts
    exact h q hq (List.isPrefixOf_iff_prefix.mp hstarts)
  rw [replaceAll, replaceFrom, hfind, replaceAll]

end ReplaceAll

theorem isSome_after?_iff {p s : Bytes} : (after? p s).isSome ↔ p <+: s := by
  constructor
  · intro h
    obtain ⟨r, hr⟩ := Option.isSome_iff_exists.mp h
    exact ⟨r, (eq_of_after? hr).symm⟩
  · rintro ⟨r, rfl⟩
    rw [after?_append_self]
    rfl

end Bytes

namespace Script

/-! ### What is dangerous behind a `<` -/

/-- What turns a `<` in front of it into markup. -/
def dangers : List Bytes := [utf8 "/", utf8 "!--"]

/-- A danger with the `<` in front of it. -/
def markup (m : Bytes) : Bytes := octet '<' :: m

/-- A danger with the `<` in front of it, escaped. -/
def harmless (m : Bytes) : Bytes := octet '<' :: octet '\\' :: m

theorem notMem_of_mem_dangers {m : Bytes} (hm : m ∈ dangers) : octet '<' ∉ m := by
  revert m
  decide

theorem notMem_backslash_cons {m : Bytes} (hm : m ∈ dangers) : octet '<' ∉ octet '\\' :: m :=
  List.not_mem_cons_of_ne_of_not_mem (by decide) (notMem_of_mem_dangers hm)

theorem not_isPrefix_backslash_cons {m : Bytes} (hm : m ∈ dangers) (r : Bytes) :
    ¬m <+: octet '\\' :: r := by
  rw [dangers, List.mem_pair] at hm
  rcases hm with rfl | rfl <;> exact fun h => absurd (List.cons_prefix_cons.mp h).1 (by decide)

/-- The dangers are told apart by their first octets. -/
theorem eq_of_isPrefix {m n r : Bytes} (hm : m ∈ dangers) (hn : n ∈ dangers) (h : n <+: m ++ r) :
    n = m := by
  rw [dangers, List.mem_pair] at hm hn
  rcases hm with rfl | rfl <;> rcases hn with rfl | rfl
  · rfl
  · exact absurd (List.cons_prefix_cons.mp h).1 (by decide)
  · exact absurd (List.cons_prefix_cons.mp h).1 (by decide)
  · rfl

theorem exists_mem_dangers_iff {r : Bytes} :
    (∃ m ∈ dangers, m <+: r) ↔
      r.head? = some (octet '/') ∨ (Bytes.after? (utf8 "!--") r).isSome := by
  have hslash : utf8 "/" <+: r ↔ r.head? = some (octet '/') := by
    rw [List.head?_eq_some_iff]
    exact exists_congr fun t => eq_comm
  rw [← hslash, Bytes.isSome_after?_iff, dangers, List.exists_mem_cons_iff,
    List.exists_mem_cons_iff]
  simp only [List.not_mem_nil, false_and, exists_false, or_false]

variable {b : UInt8} {m r s : Bytes}

theorem markup_isPrefix_cons_iff : markup m <+: b :: r ↔ octet '<' = b ∧ m <+: r :=
  List.cons_prefix_cons

theorem harmless_isPrefix_cons_iff :
    harmless m <+: b :: r ↔ octet '<' = b ∧ octet '\\' :: m <+: r :=
  List.cons_prefix_cons

/-! ### One step of the escaping -/

/-- Where no danger follows, an octet is kept. -/
theorem escape_cons (h : ∀ m ∈ dangers, ¬markup m <+: b :: r) :
    escape (b :: r) = b :: escape r := by
  rw [escape, if_neg]
  rintro ⟨rfl, hdanger⟩
  obtain ⟨m, hm, hstarts⟩ := exists_mem_dangers_iff.mpr hdanger
  exact h m hm (markup_isPrefix_cons_iff.mpr ⟨rfl, hstarts⟩)

/-- Where a danger follows, a backslash comes between it and the `<`. -/
theorem escape_markup (hm : m ∈ dangers) (r : Bytes) :
    escape (markup m ++ r) = harmless m ++ escape r := by
  have hdanger := exists_mem_dangers_iff.mp ⟨m, hm, List.prefix_append m r⟩
  rw [markup, List.cons_append, escape, if_pos ⟨rfl, hdanger⟩,
    escape_append (notMem_of_mem_dangers hm), harmless, List.cons_append, List.cons_append]

/-- **Escaping keeps what stands in front of the next `<`.** -/
theorem isPrefix_escape_iff (hm : octet '<' ∉ m) : m <+: escape r ↔ m <+: r := by
  constructor
  · intro h
    induction m generalizing r with
    | nil => exact List.nil_prefix
    | cons a m ih =>
      rw [List.mem_cons, not_or] at hm
      rcases r with - | ⟨b, r⟩
      · exact h
      · rcases eq_or_ne b (octet '<') with rfl | hb
        · -- An octet is never changed itself, so the result starts with `<`.
          rw [escape] at h
          split at h <;> exact absurd (List.cons_prefix_cons.mp h).1.symm hm.1
        · rw [escape_cons_of_ne hb, List.cons_prefix_cons] at h
          exact List.cons_prefix_cons.mpr ⟨h.1, ih hm.2 h.2⟩
  · rintro ⟨t, rfl⟩
    rw [escape_append hm]
    exact List.prefix_append _ _

/-- **The induction over an escaping**: a text is empty, or it starts with a danger behind `<`, or
its first octet is kept. -/
theorem escape_induction {motive : Bytes → Prop} (nil : motive [])
    (escaped : ∀ m ∈ dangers, ∀ r, motive r → motive (markup m ++ r))
    (kept : ∀ b r, (∀ m ∈ dangers, ¬markup m <+: b :: r) → motive r → motive (b :: r)) :
    ∀ s, motive s
  | [] => nil
  | b :: r => by
    by_cases h : ∃ m ∈ dangers, markup m <+: b :: r
    · obtain ⟨m, hm, t, ht⟩ := h
      obtain ⟨rfl, rfl⟩ : octet '<' = b ∧ m ++ t = r := List.cons.inj ht
      have hlength : t.length ≤ (m ++ t).length := (List.suffix_append m t).length_le
      exact escaped m hm t (escape_induction nil escaped kept t)
    · refine kept b r ?_ (escape_induction nil escaped kept r)
      intro m hm hstarts
      exact h ⟨m, hm, hstarts⟩
termination_by s => s.length

/-! ### What an escaping leaves -/

/-- What starts with an octet that a text does not have is found behind that text only. -/
theorem isInfix_of_isInfix_append {l t : Bytes} (hb : b ∉ t) (h : b :: l <:+: t ++ r) :
    b :: l <:+: r := by
  induction t with
  | nil => exact h
  | cons a t ih =>
    rw [List.mem_cons, not_or] at hb
    rw [List.cons_append, List.infix_cons_iff] at h
    rcases h with h | h
    · exact absurd (List.cons_prefix_cons.mp h).1 hb.1
    · exact ih hb.2 h

/-- **No danger stands behind a `<` of an escaped text.** -/
theorem not_isInfix_escape (hm : m ∈ dangers) (s : Bytes) : ¬markup m <:+: escape s := by
  induction s using escape_induction with
  | nil => exact fun h => absurd (List.eq_nil_of_infix_nil h) (List.cons_ne_nil _ _)
  | escaped n hn r ih =>
    rw [escape_markup hn, harmless, List.cons_append, List.infix_cons_iff]
    rintro (h | h)
    · exact not_isPrefix_backslash_cons hm _ (markup_isPrefix_cons_iff.mp h).2
    · exact ih (isInfix_of_isInfix_append (notMem_backslash_cons hn) h)
  | kept b r h ih =>
    rw [escape_cons h, List.infix_cons_iff]
    rintro (hstarts | hwithin)
    · obtain ⟨hb, hr⟩ := markup_isPrefix_cons_iff.mp hstarts
      rw [isPrefix_escape_iff (notMem_of_mem_dangers hm)] at hr
      exact h m hm (markup_isPrefix_cons_iff.mpr ⟨hb, hr⟩)
    · exact ih hwithin

/-- **A text without dangers is left alone.** -/
theorem escape_of_not_isInfix (h : ∀ m ∈ dangers, ¬markup m <:+: s) : escape s = s := by
  induction s with
  | nil => rfl
  | cons b r ih =>
    rw [escape_cons fun m hm hstarts => h m hm hstarts.isInfix,
      ih fun m hm hwithin => h m hm (List.infix_cons hwithin)]

/-! ### Escaping as a replacement -/

/-- Each danger behind a `<` with what the escaping makes of it. -/
def escapes : List (Bytes × Bytes) := dangers.map fun m => (markup m, harmless m)

/-- The pairs the other way round. -/
def restorations : List (Bytes × Bytes) := dangers.map fun m => (harmless m, markup m)

/-- Where the same text stands in front of all dangers, one pair matches at most. -/
theorem replaceAll_map_dangers {p : Bytes} (hp : p ≠ []) (new : Bytes → Bytes) (hm : m ∈ dangers)
    (r : Bytes) :
    Bytes.replaceAll (dangers.map fun n => (p ++ n, new n)) (p ++ m ++ r) =
      new m ++ Bytes.replaceAll (dangers.map fun n => (p ++ n, new n)) r := by
  refine Bytes.replaceAll_append (List.mem_map.mpr ⟨m, hm, rfl⟩)
    (List.append_ne_nil_of_left_ne_nil hp m) ?_
  intro q hq hstarts
  obtain ⟨n, hn, rfl⟩ := List.mem_map.mp hq
  rw [List.append_assoc, List.prefix_append_right_inj] at hstarts
  rw [eq_of_isPrefix hm hn hstarts]

theorem escape_eq_replaceAll (s : Bytes) : escape s = Bytes.replaceAll escapes s := by
  induction s using escape_induction with
  | nil => rfl
  | escaped m hm r ih =>
    rw [escape_markup hm, ih]
    exact (replaceAll_map_dangers (p := utf8 "<") (List.cons_ne_nil _ _) harmless hm r).symm
  | kept b r h ih =>
    rw [escape_cons h, ih, Bytes.replaceAll_cons]
    intro q hq
    obtain ⟨n, hn, rfl⟩ := List.mem_map.mp hq
    exact h n hn

/-- **Taking the backslashes out restores the text**, if none of them was there before. -/
theorem replaceAll_escape (h : ∀ m ∈ dangers, ¬harmless m <:+: s) :
    Bytes.replaceAll restorations (escape s) = s := by
  induction s using escape_induction with
  | nil => rfl
  | escaped m hm r ih =>
    have hreplace : Bytes.replaceAll restorations (harmless m ++ escape r) =
        markup m ++ Bytes.replaceAll restorations (escape r) :=
      replaceAll_map_dangers (p := utf8 "<\\") (List.cons_ne_nil _ _) markup hm _
    rw [escape_markup hm, hreplace,
      ih fun n hn hwithin => h n hn (hwithin.trans (List.suffix_append _ _).isInfix)]
  | kept b r hkept ih =>
    rw [escape_cons hkept, Bytes.replaceAll_cons,
      ih fun n hn hwithin => h n hn (List.infix_cons hwithin)]
    intro q hq hstarts
    obtain ⟨n, hn, rfl⟩ := List.mem_map.mp hq
    obtain ⟨hb, hr⟩ := harmless_isPrefix_cons_iff.mp hstarts
    -- The backslash was in the text already, since the escaping put none here.
    rw [isPrefix_escape_iff (notMem_backslash_cons hn)] at hr
    exact h n hn (harmless_isPrefix_cons_iff.mpr ⟨hb, hr⟩).isInfix

/-- **An escaped script is harmless and readable.** It holds neither the end of an element nor the
start of a comment, and escaping it again changes nothing. If the text had none of the escaped forms
itself, replacing these by what they stand for restores it, and escaping is that replacement the
other way round. So no script, whatever its states are initialized with, ends its element or starts
a comment in it. -/
theorem escaping_is_safe :
    (∀ s : Bytes,
      ¬utf8 "</" <:+: escape s ∧ ¬utf8 "<!--" <:+: escape s ∧
      escape (escape s) = escape s ∧
      (¬utf8 "<\\/" <:+: s → ¬utf8 "<\\!--" <:+: s →
        Bytes.replaceAll [(utf8 "<\\/", utf8 "</"), (utf8 "<\\!--", utf8 "<!--")] (escape s) = s) ∧
      escape s = Bytes.replaceAll [(utf8 "</", utf8 "<\\/"), (utf8 "<!--", utf8 "<\\!--")] s) ∧
    ∀ (states : List StateDeclaration) (ws : List Wiring) (t : Bytes), text? states ws = some t →
      t = escape (source states ws) ∧ ¬utf8 "</" <:+: t ∧ ¬utf8 "<!--" <:+: t := by
  have hslash (s : Bytes) : ¬utf8 "</" <:+: escape s :=
    not_isInfix_escape (m := utf8 "/") (by decide) s
  have hcomment (s : Bytes) : ¬utf8 "<!--" <:+: escape s :=
    not_isInfix_escape (m := utf8 "!--") (by decide) s
  constructor
  · intro s
    refine ⟨hslash s, hcomment s, escape_of_not_isInfix fun m hm => not_isInfix_escape hm s, ?_,
      escape_eq_replaceAll s⟩
    intro hend hstart
    refine replaceAll_escape fun m hm => ?_
    rw [dangers, List.mem_pair] at hm
    rcases hm with rfl | rfl
    · exact hend
    · exact hstart
  · intro states ws t ht
    rw [text?, Option.ite_none_left_eq_some] at ht
    obtain rfl := Option.some.inj ht.2
    exact ⟨rfl, hslash _, hcomment _⟩

/-- Both texts, one right behind a `<` and one at the end; and a state that is initialized with the
end of the script element. -/
theorem escaping_is_safe_initializer :
    (¬utf8 "<\\/" <:+: utf8 "<<!--</" ∧ ¬utf8 "<\\!--" <:+: utf8 "<<!--</" ∧
      escape (utf8 "<<!--</") = utf8 "<<\\!--<\\/" ∧
      Bytes.replaceAll [(utf8 "<\\/", utf8 "</"), (utf8 "<\\!--", utf8 "<!--")]
        (escape (utf8 "<<!--</")) = utf8 "<<!--</") ∧
    ∃ t, text? [⟨utf8 "x", utf8 "\"</script>\"", ⟨1, 1⟩⟩] [] = some t ∧
      ¬utf8 "</" <:+: t ∧ ¬utf8 "<!--" <:+: t := by
  obtain ⟨hescape, hscript⟩ := escaping_is_safe
  have hend : ¬utf8 "<\\/" <:+: utf8 "<<!--</" := by decide
  have hstart : ¬utf8 "<\\!--" <:+: utf8 "<<!--</" := by decide
  obtain ⟨-, -, -, hback, -⟩ := hescape (utf8 "<<!--</")
  obtain ⟨t, ht⟩ : ∃ t, text? [⟨utf8 "x", utf8 "\"</script>\"", ⟨1, 1⟩⟩] [] = some t := ⟨_, rfl⟩
  exact ⟨⟨hend, hstart, by decide, hback hend hstart⟩, t, ht, (hscript _ _ _ ht).2⟩

end Script

end LiveMarkup
