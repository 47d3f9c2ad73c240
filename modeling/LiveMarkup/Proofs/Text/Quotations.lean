import LiveMarkup.Proofs.Source.Parentheses
import LiveMarkup.Proofs.Text.Characters
import LiveMarkup.Proofs.Text.Margins
import LiveMarkup.Proofs.Text.Quoted

/-!
# Quotations are read back, and end at one place

A text between two equal quotes, with a backslash in front of every quote of that kind and every
backslash, means the text (`LiveMarkup.Quoted.content_literal`), also as the value of an attribute.

Where a literal ends is found in two ways: by the search for its quote, and by the automaton that
knows about brackets as well. Both go over an escaped octet unseen, and what the search has found in
the beginning of a text it finds in all of it (`LiveMarkup.Quoted.closing?_append`). So the
automaton is inside the quotation at every index in front of the end that the search finds, and
outside at that index (`LiveMarkup.Nesting.firstLeaves_of_closing?`). Both facts are in the main
statement, `LiveMarkup.Quoted.quotations_read_back`.
-/

namespace LiveMarkup

namespace Quoted

theorem ne_backslash_of_isQuote {q : UInt8} (hq : isQuote q) : q ≠ octet '\\' := by
  rintro rfl
  exact absurd hq (by decide)

theorem isSolid_of_isQuote {q : UInt8} (hq : isQuote q) : isSolid q := by
  rw [isQuote, Bool.or_eq_true, beq_iff_eq, beq_iff_eq] at hq
  rcases hq with rfl | rfl <;> decide

/-! ### Values -/

section Literal

variable {q : UInt8} (hq : isQuote q)

include hq

theorem trim_literal (t : Bytes) : (literal q t).trim = literal q t := by
  have hsolid := isSolid_of_isQuote hq
  rw [Bytes.trim, literal, Bytes.trimStart_of_solid hsolid, ← List.cons_append,
    Bytes.trimEnd_concat_solid _ hsolid]

theorem value_literal {t : Bytes} (ht : Utf8.isValid t) : value (literal q t) = t := by
  have htake : take? (literal q t) = some (literal q t, []) := by
    have hself := take?_literal (ne_backslash_of_isQuote hq) t []
    rwa [List.append_nil] at hself
  have hhead : (literal q t).head?.any isQuote := hq
  rw [value]
  dsimp only
  rw [trim_literal hq, hhead, htake]
  exact content_literal hq ht

/-! ### Where a literal ends -/

/-- What ends in the beginning of a text ends at the same place in all of it. -/
theorem closing?_append {s l r : Bytes} (h : closing? q s = some (l, r)) (t : Bytes) :
    closing? q (s ++ t) = some (l, r ++ t) := by
  obtain ⟨body, hbody, rfl, rfl⟩ := exists_isBody_of_closing? h
  rw [List.append_assoc, List.cons_append]
  exact closing?_of_isBody (ne_backslash_of_isQuote hq) hbody (r ++ t)

/-- **Nothing ends in front of the end** that is found, or anywhere if none is found. -/
theorem closing?_eq_none_of_isPrefix {p s : Bytes} (hp : p <+: s)
    (h : ∀ y, closing? q s = some y → p.length < y.1.length) : closing? q p = none := by
  rcases hclose : closing? q p with - | ⟨l, r⟩
  · rfl
  · obtain ⟨t, rfl⟩ := hp
    obtain ⟨body, -, rfl, rfl⟩ := exists_isBody_of_closing? hclose
    have hlt := h _ (closing?_append hq hclose t)
    simp only [List.length_append, List.length_cons, List.length_nil] at hlt
    omega

end Literal

/-- The index behind the literal that starts at an index, if it ends. -/
def endAt? (s : Bytes) (i : Nat) : Option Nat := (take? (s.drop i)).map fun y => i + y.1.length

end Quoted

namespace Nesting

theorem isQuote_of_isQuote {q : UInt8} (hq : Quoted.isQuote q) : isQuote q := by
  rw [Quoted.isQuote] at hq
  rw [isQuote, hq, Bool.true_or]

/-- What a run has come to at index `k`, if it starts with a nesting at index `i`. -/
def reached (n : Nesting) (s : Bytes) (i k : Nat) : Nesting :=
  ((s.drop i).take (k - i)).foldl step n

/-- **A run first leaves a quotation just before an index**: it is outside there, and inside at
every index behind its start and in front. -/
structure FirstLeaves (n : Nesting) (s : Bytes) (i k : Nat) : Prop where
  started : i < k
  within : k ≤ s.length
  outside : (n.reached s i k).quote = none
  inside : ∀ j, i < j → j < k → (n.reached s i j).quote ≠ none

theorem FirstLeaves.unique {n : Nesting} {s : Bytes} {i k k' : Nat} (h : n.FirstLeaves s i k)
    (h' : n.FirstLeaves s i k') : k = k' := by
  rcases Nat.lt_trichotomy k k' with hlt | heq | hgt
  · exact absurd h.outside (h'.inside k h.started hlt)
  · exact heq
  · exact absurd h'.outside (h.inside k' h'.started hgt)

section Run

variable {n : Nesting} {s u : Bytes} {i : Nat} {q : UInt8} {k braces : Int} {broken : Bool}
  (hs : s.drop i = q :: u) (hopen : n.step q = ⟨k, braces, some q, false, broken⟩)

include hs hopen

theorem reached_eq {j : Nat} (hj : i < j) :
    n.reached s i j = (u.take (j - (i + 1))).foldl step ⟨k, braces, some q, false, broken⟩ := by
  rw [reached, hs, show j - i = j - (i + 1) + 1 by omega, List.take_succ_cons, List.foldl_cons,
    hopen]

variable (hq : Quoted.isQuote q)

include hq

/-- A run is inside the quotation as long as the search has not found its end. -/
theorem quote_reached {j : Nat} (hj : i < j)
    (h : ∀ y, Quoted.closing? q u = some y → j - (i + 1) < y.1.length) :
    (n.reached s i j).quote = some q := by
  rw [reached_eq hs hopen hj]
  refine quote_foldl_of_closing? ?_ k braces broken
  refine Quoted.closing?_eq_none_of_isPrefix hq (List.take_prefix _ u) fun y hy => ?_
  exact Nat.lt_of_le_of_lt (List.length_take_le _ _) (h y hy)

/-- **A run first leaves the quotation where the search finds its end.** -/
theorem firstLeaves_of_closing? {l r : Bytes} (h : Quoted.closing? q u = some (l, r)) :
    n.FirstLeaves s i (i + (l.length + 1)) := by
  have hquote := isQuote_of_isQuote hq
  obtain ⟨body, hbody, rfl, rfl⟩ := Quoted.exists_isBody_of_closing? h
  have hlength := congrArg List.length hs
  rw [List.length_drop, List.length_cons, List.length_append, List.length_cons] at hlength
  refine ⟨by omega, ?_, ?_, fun j hj hlt => ?_⟩
  · rw [List.length_append, List.length_singleton]
    omega
  · have htake : (body ++ q :: r).take (i + ((body ++ [q]).length + 1) - (i + 1)) =
        body ++ [q] := by
      rw [show i + ((body ++ [q]).length + 1) - (i + 1) = (body ++ [q]).length by omega,
        List.append_cons body q r, List.take_left]
    rw [reached_eq hs hopen (by omega), htake, List.foldl_append, foldl_step_of_isBody hbody,
      List.foldl_cons, step_end hquote, List.foldl_nil]
  · rw [quote_reached hs hopen hq hj fun y hy => ?_]
    · simp
    · obtain rfl := Option.some.inj (h.symm.trans hy)
      dsimp only
      omega

end Run

end Nesting

namespace Quoted

/-- **Quotations are read back, and end at one place.** The literal of a well-formed text ends where
it was written to end, whatever follows it, and its content and its value are the text, for either
quote. And for any text the search for the end of a literal and the automaton of quotes and brackets
agree: started outside quotations at a quote, the automaton first leaves the quotation just before
the index that the search finds, and never if it finds none. -/
theorem quotations_read_back :
    (∀ (t : Bytes) (q : UInt8) (r : Bytes), Utf8.isValid t → isQuote q →
      endAt? (literal q t ++ r) 0 = some (literal q t).length ∧
      content (literal q t) = t ∧ value (literal q t) = t) ∧
    ∀ (s : Bytes) (i : Nat) (q : UInt8) (parens braces : Int) (broken : Bool),
      s[i]? = some q → isQuote q →
      (∀ k, endAt? s i = some k ↔ Nesting.FirstLeaves { parens, braces, broken } s i k) ∧
      (endAt? s i = none ↔ ∀ k, i < k → k ≤ s.length →
        (Nesting.reached { parens, braces, broken } s i k).quote ≠ none) := by
  refine ⟨fun t q r ht hq => ⟨?_, content_literal hq ht, value_literal hq ht⟩,
    fun s i q parens braces broken hi hq => ?_⟩
  · rw [endAt?, List.drop_zero, take?_literal (ne_backslash_of_isQuote hq), Option.map_some,
      Nat.zero_add]
  · obtain ⟨hlt, rfl⟩ := List.getElem?_eq_some_iff.mp hi
    have hs : s.drop i = s[i] :: s.drop (i + 1) := List.drop_eq_getElem_cons hlt
    have hquote : Nesting.isQuote s[i] := Nesting.isQuote_of_isQuote hq
    obtain ⟨broken', hopen⟩ := Nesting.step_of_isQuote hquote parens braces broken
    have hend :
        endAt? s i = (closing? s[i] (s.drop (i + 1))).map fun y => i + (y.1.length + 1) := by
      rw [endAt?, hs, take?, Option.map_map]
      rfl
    rcases hclose : closing? s[i] (s.drop (i + 1)) with - | y
    · -- The search finds nothing, and the run stays inside.
      have hinside (k : Nat) (hk : i < k) :
          (Nesting.reached { parens, braces, broken } s i k).quote ≠ none := by
        rw [Nesting.quote_reached hs hopen hq hk (by simp [hclose])]
        simp
      rw [hend, hclose]
      refine ⟨fun k => ⟨fun h => absurd h (by simp), fun h => ?_⟩, fun _ k hk _ => hinside k hk,
        fun _ => rfl⟩
      exact absurd h.outside (hinside k h.started)
    · have hleaves := Nesting.firstLeaves_of_closing? hs hopen hq hclose
      rw [hend, hclose]
      refine ⟨fun k => ⟨fun h => ?_, fun h => ?_⟩, fun h => absurd h (by simp), fun h => ?_⟩
      · obtain rfl := Option.some.inj h
        exact hleaves
      · exact congrArg some (hleaves.unique h)
      · exact absurd hleaves.outside (h _ hleaves.started hleaves.within)

/-- A text with both quotes, a backslash, a line feed and a character of two octets; a literal that
has a parenthesis behind a quote; and one that ends in a backslash. -/
theorem quotations_read_back_marks :
    (Utf8.isValid (utf8 "\"'\\\né") ∧ isQuote (octet '"') ∧
      endAt? (literal (octet '"') (utf8 "\"'\\\né") ++ utf8 "\"") 0 =
        some (literal (octet '"') (utf8 "\"'\\\né")).length ∧
      content (literal (octet '"') (utf8 "\"'\\\né")) = utf8 "\"'\\\né" ∧
      value (literal (octet '"') (utf8 "\"'\\\né")) = utf8 "\"'\\\né") ∧
    ((utf8 "('\\')'x")[1]? = some (octet '\'') ∧ isQuote (octet '\'') ∧
      endAt? (utf8 "('\\')'x") 1 = some 6 ∧
      Nesting.FirstLeaves { parens := 1 } (utf8 "('\\')'x") 1 6) ∧
    endAt? (utf8 "\"a\\") 0 = none ∧ ∀ k, 0 < k → k ≤ (utf8 "\"a\\").length →
      (Nesting.reached {} (utf8 "\"a\\") 0 k).quote ≠ none := by
  obtain ⟨hread, hscan⟩ := quotations_read_back
  have hvalid : Utf8.isValid (utf8 "\"'\\\né") := Utf8.isValid_utf8 _
  have hfirst := hread _ (octet '"') (utf8 "\"") hvalid (by decide)
  have hend : endAt? (utf8 "('\\')'x") 1 = some 6 := by decide
  have hleaves := (hscan (utf8 "('\\')'x") 1 (octet '\'') 1 0 false (by decide) (by decide)).1 6
  have hopen : endAt? (utf8 "\"a\\") 0 = none := by decide
  have hnever := (hscan (utf8 "\"a\\") 0 (octet '"') 0 0 false (by decide) (by decide)).2
  exact ⟨⟨hvalid, by decide, hfirst⟩,
    ⟨by decide, by decide, hend, hleaves.mp hend⟩, hopen, hnever.mp hopen⟩

end Quoted

end LiveMarkup
