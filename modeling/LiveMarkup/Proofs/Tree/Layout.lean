import LiveMarkup.Proofs.Tree.Attributes
import LiveMarkup.Proofs.Tree.Parents
import Mathlib.Data.List.Induction
import Mathlib.Data.List.Nodup

/-!
# The layout of a source

What the nesting of a source is, said on its lines alone. A `LiveMarkup.Row` is a significant line
together with whether it is inside a style block; a row closes scopes
(`LiveMarkup.Row.closesScopes`) if it is a tag line, a text line, a state declaration, a style
directive or a declaration inside a style block. Closing marks, lines that are not recognized and
state declarations with a bad name close none.

* **Reach**: a row reaches a later line if it is indented less than that line, and less than every
  row between them that closes scopes (`LiveMarkup.Row.Reaches`).
* **Parent**: the parent of a line is the last tag line before it that reaches it
  (`LiveMarkup.Layout.parent?`).
* **Style blocks**: a line is inside a style block if some style directive before it reaches it
  (`LiveMarkup.Layout.inStyle_iff`), and its parent is then that of the directive
  (`LiveMarkup.Layout.parent?_of_block`).

From the parents the whole forest can be read off: `LiveMarkup.Layout.element?` is the element of a
tag line with the declarations of all style rows whose parent it is, and `LiveMarkup.Layout.entries`
lists the nodes of the source with their parents. That reading a source builds exactly this list is
the subject of `LiveMarkup.Proofs.Tree.Nesting`; nothing here mentions the state of a reading.
-/

namespace LiveMarkup

/-! ### Rows -/

namespace LineKind

/-- The tag line that a line is. -/
def tag? : LineKind → Option TagLine
  | .tag t => some t
  | _ => none

/-- The text line that a line is. -/
def text? : LineKind → Option TextLine
  | .text t => some t
  | _ => none

/-- The state declaration that a line is. -/
def state? : LineKind → Option StateLine
  | .state d => some d
  | _ => none

/-- The style directive that a line is. -/
def directive? : LineKind → Option Style.Directive
  | .style d => some d
  | _ => none

end LineKind

/-- A significant line, and whether it is inside a style block. -/
structure Row where
  line : Line
  inStyle : Bool
  deriving DecidableEq, Repr

namespace Row

/-- The indent of the line. -/
def indent (x : Row) : Nat := x.line.indent

/-- What the line is, if it is outside style blocks. -/
def kind? (x : Row) : Option LineKind :=
  if x.inStyle then none else some (LineKind.ofText x.line.text)

/-- The tag line that a row is. -/
def tag? (x : Row) : Option TagLine := x.kind?.bind LineKind.tag?

/-- The text line that a row is. -/
def text? (x : Row) : Option TextLine := x.kind?.bind LineKind.text?

/-- The state declaration that a row is. -/
def state? (x : Row) : Option StateLine := x.kind?.bind LineKind.state?

/-- The style directive that a row is. -/
def directive? (x : Row) : Option Style.Directive := x.kind?.bind LineKind.directive?

/-- Whether a row ends the elements that are indented as much as it or more. -/
def closesScopes (x : Row) : Bool :=
  match x.kind? with
  | none => !LineKind.isClosing x.line.text
  | some (.tag _) | some (.text _) | some (.state _) | some (.style _) => true
  | some .closing | some .unrecognized | some (.misnamed _) => false

/-- The well-formed style declarations on a row. -/
def declarations (x : Row) : List StyleProperty :=
  match x.kind? with
  | none => if LineKind.isClosing x.line.text then [] else (Style.parseList x.line.text).1
  | some (.style (.inline d)) => (Style.parseList d).1
  | _ => []

/-- The indent of the style block that is open after a row, from the one open before it. -/
def styleAfter (x : Row) (style : Option Nat) : Option Nat :=
  match x.kind? with
  | none | some .closing | some .unrecognized | some (.misnamed _) => style
  | some (.style _) => some x.indent
  | some (.tag _) | some (.text _) | some (.state _) => none

/-- **A row stays open** below the rows that follow: each of them that closes scopes is indented
deeper. -/
def StaysOpen (a : Row) (after : List Row) : Prop :=
  ∀ c ∈ after, c.closesScopes → a.indent < c.indent

instance (a : Row) (after : List Row) : Decidable (a.StaysOpen after) :=
  inferInstanceAs (Decidable (∀ c ∈ after, _))

/-- **A row reaches a line** after the rows that follow it: it is indented less than the line and
stays open until there. -/
def Reaches (a : Row) (after : List Row) (indent : Nat) : Prop :=
  a.indent < indent ∧ a.StaysOpen after

instance (a : Row) (after : List Row) (indent : Nat) : Decidable (a.Reaches after indent) :=
  inferInstanceAs (Decidable (_ ∧ _))

@[simp] theorem staysOpen_nil (a : Row) : a.StaysOpen [] := by
  intro c hc
  exact absurd hc (by simp)

theorem staysOpen_append_singleton {a : Row} {after : List Row} {x : Row} :
    a.StaysOpen (after ++ [x]) ↔ a.StaysOpen after ∧ (x.closesScopes → a.indent < x.indent) := by
  simp only [StaysOpen, List.mem_append, List.mem_singleton]
  constructor
  · intro h
    exact ⟨fun c hc => h c (Or.inl hc), h x (Or.inr rfl)⟩
  · rintro ⟨h, hx⟩ c (hc | rfl)
    · exact h c hc
    · exact hx

/-! What a row is decides all the rest: the four kinds of rows that close scopes outside style
blocks, the declarations inside them, and the rows that do nothing to the tree. -/

theorem tag?_of_kind? {x : Row} {k : LineKind} (h : x.kind? = some k) : x.tag? = k.tag? := by
  rw [tag?, h, Option.bind_some]

theorem text?_of_kind? {x : Row} {k : LineKind} (h : x.kind? = some k) : x.text? = k.text? := by
  rw [text?, h, Option.bind_some]

theorem state?_of_kind? {x : Row} {k : LineKind} (h : x.kind? = some k) : x.state? = k.state? := by
  rw [state?, h, Option.bind_some]

theorem closesScopes_of_tag? {x : Row} (h : x.tag?.isSome) : x.closesScopes := by
  rw [tag?] at h
  rw [closesScopes]
  cases hk : x.kind? with
  | none => exact absurd h (by simp [hk])
  | some k =>
    cases k with
    | tag t => rfl
    | _ => exact absurd h (by simp [hk, LineKind.tag?])

theorem closesScopes_of_directive? {x : Row} (h : x.directive?.isSome) : x.closesScopes := by
  rw [directive?] at h
  rw [closesScopes]
  cases hk : x.kind? with
  | none => exact absurd h (by simp [hk])
  | some k =>
    cases k with
    | style d => rfl
    | _ => exact absurd h (by simp [hk, LineKind.directive?])

theorem not_tag?_of_directive? {x : Row} (h : x.directive?.isSome) : ¬x.tag?.isSome := by
  rw [directive?] at h
  rw [tag?]
  cases hk : x.kind? with
  | none => simp
  | some k =>
    cases k with
    | tag t => exact absurd h (by simp [hk, LineKind.directive?])
    | _ => simp [LineKind.tag?]

theorem not_tag?_of_inStyle {x : Row} (h : x.inStyle) : ¬x.tag?.isSome := by
  simp [tag?, kind?, h]

/-- A row that closes no scopes declares nothing. -/
theorem declarations_of_not_closesScopes {x : Row} (h : ¬x.closesScopes) : x.declarations = [] := by
  rw [closesScopes] at h
  rw [declarations]
  cases hk : x.kind? with
  | none =>
    have hclosing : LineKind.isClosing x.line.text := by simpa [hk] using h
    exact if_pos hclosing
  | some k =>
    cases k with
    | style d => exact absurd h (by simp [hk])
    | _ => rfl

/-- What a row does to the style block that is open: a directive opens one, any other row that
closes scopes outside a block ends it, and all other rows leave it alone. -/
theorem styleAfter_cases (x : Row) (style : Option Nat) :
    (x.directive?.isSome ∧ x.styleAfter style = some x.indent) ∨
    (x.directive? = none ∧ x.inStyle = false ∧ x.styleAfter style = none ∧ x.closesScopes) ∨
    (x.directive? = none ∧ x.styleAfter style = style ∧ (x.closesScopes → x.inStyle)) := by
  rw [directive?, styleAfter, closesScopes]
  cases hin : x.inStyle with
  | true => simp [kind?, hin]
  | false =>
    have hk : x.kind? = some (LineKind.ofText x.line.text) := by simp [kind?, hin]
    rw [hk]
    cases LineKind.ofText x.line.text <;> simp [LineKind.directive?]

end Row

namespace Layout

/-! ### Parents -/

/-- The parent of a line with the given indent after a list of rows: the last tag line among them
that reaches it. -/
def parent? (indent : Nat) : List Row → Option Row
  | [] => none
  | a :: after =>
    (parent? indent after).or (if a.tag?.isSome ∧ a.Reaches after indent then some a else none)

/-- There is no parent exactly when no tag line reaches. -/
theorem parent?_eq_none_iff {indent : Nat} {rows : List Row} :
    parent? indent rows = none ↔
      ∀ (before : List Row) (a : Row) (after : List Row), rows = before ++ a :: after →
        a.tag?.isSome → ¬a.Reaches after indent := by
  induction rows with
  | nil => simp [parent?]
  | cons b rest ih =>
    rw [parent?, Option.or_eq_none_iff, ih]
    constructor
    · rintro ⟨hrest, hb⟩ before a after heq htag hreach
      cases before with
      | nil =>
        obtain ⟨rfl, rfl⟩ : b = a ∧ rest = after := by simpa using heq
        exact absurd hb (by simp [htag, hreach])
      | cons c before =>
        obtain ⟨-, rfl⟩ : b = c ∧ rest = before ++ a :: after := by simpa using heq
        exact hrest before a after rfl htag hreach
    · intro h
      refine ⟨fun before a after heq => h (b :: before) a after (by simp [heq]), if_neg ?_⟩
      rintro ⟨htag, hreach⟩
      exact h [] b rest rfl htag hreach

/-- **The parent is the last tag line that reaches.** -/
theorem parent?_eq_some_iff {indent : Nat} {rows : List Row} {a : Row} :
    parent? indent rows = some a ↔ ∃ before after : List Row, rows = before ++ a :: after ∧
      a.tag?.isSome ∧ a.Reaches after indent ∧
      ∀ (b : List Row) (c : Row) (bs : List Row), after = b ++ c :: bs →
        c.tag?.isSome → ¬c.Reaches bs indent := by
  simp only [← parent?_eq_none_iff]
  induction rows with
  | nil => simp [parent?]
  | cons b rest ih =>
    rw [parent?, Option.or_eq_some_iff, ih]
    -- The parent is among the rows further on, or it is the first row and none of them reaches.
    constructor
    · rintro (⟨before, after, heq, hlast⟩ | ⟨hnone, hb⟩)
      · exact ⟨b :: before, after, by simp [heq], hlast⟩
      · split at hb
        · rename_i hreach
          obtain rfl : b = a := by simpa using hb
          exact ⟨[], rest, rfl, hreach.1, hreach.2, hnone⟩
        · exact absurd hb (by simp)
    · rintro ⟨before, after, heq, htag, hreach, hnone⟩
      cases before with
      | nil =>
        obtain ⟨rfl, rfl⟩ : b = a ∧ rest = after := by simpa using heq
        exact Or.inr ⟨hnone, if_pos ⟨htag, hreach⟩⟩
      | cons c before =>
        obtain ⟨-, rfl⟩ : b = c ∧ rest = before ++ a :: after := by simpa using heq
        exact Or.inl ⟨before, after, rfl, htag, hreach, hnone⟩

/-- The tag lines of a list of rows that stay open to its end, the last one first. -/
def openRows : List Row → List Row
  | [] => []
  | a :: after => openRows after ++ (if a.tag?.isSome ∧ a.StaysOpen after then [a] else [])

theorem mem_of_mem_openRows {a : Row} {rows : List Row} (h : a ∈ openRows rows) :
    a ∈ rows ∧ a.tag?.isSome := by
  induction rows with
  | nil => exact absurd h (by simp [openRows])
  | cons b after ih =>
    rw [openRows, List.mem_append] at h
    rcases h with h | h
    · exact ⟨List.mem_cons_of_mem b (ih h).1, (ih h).2⟩
    · split at h
      · rename_i hb
        obtain rfl : a = b := by simpa using h
        exact ⟨List.mem_cons_self, hb.1⟩
      · exact absurd h (by simp)

/-- **The inner of two open rows is indented deeper**: it closes scopes and did not close the outer
one. -/
theorem openRows_pairwise (rows : List Row) :
    (openRows rows).Pairwise fun a b => b.indent < a.indent := by
  induction rows with
  | nil => simp [openRows]
  | cons b after ih =>
    rw [openRows, List.pairwise_append]
    refine ⟨ih, ?_, ?_⟩
    · split <;> simp
    · intro a ha c hc
      split at hc
      · rename_i hb
        obtain rfl : c = b := by simpa using hc
        obtain ⟨hmem, htag⟩ := mem_of_mem_openRows ha
        exact hb.2 a hmem (Row.closesScopes_of_tag? htag)
      · exact absurd hc (by simp)

/-- The parent of a line is the innermost open row that is indented less. -/
theorem parent?_eq_find? (indent : Nat) (rows : List Row) :
    parent? indent rows = (openRows rows).find? fun a => a.indent < indent := by
  induction rows with
  | nil => rfl
  | cons b after ih =>
    rw [parent?, openRows, List.find?_append, ih]
    congr 1
    by_cases hb : b.tag?.isSome ∧ b.StaysOpen after
    · rw [if_pos hb]
      by_cases hlt : b.indent < indent
      · rw [if_pos ⟨hb.1, hlt, hb.2⟩]
        simp [hlt]
      · rw [if_neg fun h => hlt h.2.1]
        simp [hlt]
    · rw [if_neg hb, if_neg fun h => hb ⟨h.1, h.2.2⟩]
      rfl

/-- **One more row** closes the open rows that are not indented less than it, if it closes scopes,
and is open itself if it is a tag line. -/
theorem openRows_append_singleton (rows : List Row) (x : Row) :
    openRows (rows ++ [x]) = (if x.tag?.isSome then [x] else []) ++
      (openRows rows).filter fun a => x.closesScopes → a.indent < x.indent := by
  induction rows with
  | nil => simp [openRows]
  | cons b after ih =>
    rw [List.cons_append, openRows, ih, openRows, List.filter_append, ← List.append_assoc]
    congr 1
    by_cases hb : b.tag?.isSome ∧ b.StaysOpen after
    · rw [if_pos hb]
      by_cases hx : x.closesScopes → b.indent < x.indent
      · rw [if_pos ⟨hb.1, Row.staysOpen_append_singleton.mpr ⟨hb.2, hx⟩⟩,
          List.filter_cons_of_pos (by exact decide_eq_true hx), List.filter_nil]
      · rw [if_neg fun h => hx (Row.staysOpen_append_singleton.mp h.2).2,
          List.filter_cons_of_neg (by simpa using hx), List.filter_nil]
    · rw [if_neg hb, if_neg fun h => hb ⟨h.1, (Row.staysOpen_append_singleton.mp h.2).1⟩]
      rfl

/-- A row that does not close scopes leaves the open rows alone. -/
theorem openRows_of_not_closesScopes (rows : List Row) {x : Row} (h : ¬x.closesScopes) :
    openRows (rows ++ [x]) = openRows rows := by
  have htag : ¬x.tag?.isSome := fun ht => h (Row.closesScopes_of_tag? ht)
  rw [openRows_append_singleton, if_neg htag]
  simp [h]

/-- Closing the open rows that are not indented less is dropping the inner ones. -/
theorem filter_openRows (rows : List Row) (indent : Nat) :
    (openRows rows).filter (fun a => a.indent < indent) =
      (openRows rows).dropWhile fun a => indent ≤ a.indent := by
  have hsorted := openRows_pairwise rows
  generalize openRows rows = os at hsorted
  induction os with
  | nil => rfl
  | cons a os ih =>
    rw [List.pairwise_cons] at hsorted
    by_cases ha : a.indent < indent
    · have hall : ∀ b ∈ a :: os, b.indent < indent := by
        rintro b hb
        rcases List.mem_cons.mp hb with rfl | hb
        · exact ha
        · exact Nat.lt_trans (hsorted.1 b hb) ha
      rw [List.filter_eq_self.mpr (by simpa using hall)]
      simp [ha]
    · rw [List.filter_cons_of_neg (by simpa using ha), ih hsorted.2]
      simp [Nat.le_of_not_lt ha]

/-- The parent of a row that closes scopes is what is innermost once it has closed them. -/
theorem parent?_eq_head? (indent : Nat) (rows : List Row) :
    parent? indent rows = ((openRows rows).dropWhile fun a => indent ≤ a.indent).head? := by
  rw [parent?_eq_find?, ← filter_openRows, List.head?_filter]

theorem mem_of_parent? {indent : Nat} {rows : List Row} {a : Row}
    (h : parent? indent rows = some a) : a ∈ rows ∧ a.tag?.isSome := by
  rw [parent?_eq_find?] at h
  exact mem_of_mem_openRows (List.mem_of_find?_eq_some h)

/-! ### Style blocks -/

/-- The indent of the style block that is open after a list of rows. -/
def openStyle (rows : List Row) : Option Nat := rows.foldl (fun style x => x.styleAfter style) none

/-- The rows of a source with one more line: it is inside a style block if it is indented deeper
than the block that is open. -/
def add (rows : List Row) (l : Line) : List Row :=
  rows ++ [⟨l, (openStyle rows).any (· < l.indent)⟩]

/-- The rows of a list of lines. -/
def ofLines (ls : List Line) : List Row := ls.foldl add []

/-- The rows of a source. -/
def ofSource (src : Bytes) : List Row := ofLines (Line.ofSource src)

/-- **Rows are laid out** if each of them is inside a style block exactly when it is indented deeper
than the block that is open there. -/
def IsLaidOut (rows : List Row) : Prop :=
  ∀ (before : List Row) (x : Row) (after : List Row), rows = before ++ x :: after →
    x.inStyle = (openStyle before).any (· < x.indent)

theorem openStyle_append_singleton (rows : List Row) (x : Row) :
    openStyle (rows ++ [x]) = x.styleAfter (openStyle rows) := by
  rw [openStyle, List.foldl_append, List.foldl_cons, List.foldl_nil, openStyle]

theorem IsLaidOut.of_append {rows more : List Row} (h : IsLaidOut (rows ++ more)) :
    IsLaidOut rows := by
  intro before x after hrows
  exact h before x (after ++ more) (by simp [hrows])

theorem isLaidOut_append_singleton {rows : List Row} {x : Row} :
    IsLaidOut (rows ++ [x]) ↔
      IsLaidOut rows ∧ x.inStyle = (openStyle rows).any (· < x.indent) := by
  constructor
  · intro h
    exact ⟨h.of_append, h rows x [] rfl⟩
  · rintro ⟨h, hx⟩ before y after heq
    rcases List.eq_nil_or_concat after with rfl | ⟨after, z, rfl⟩
    · obtain ⟨rfl, rfl⟩ : rows = before ∧ x = y := by simpa using heq
      exact hx
    · have heq' : rows ++ [x] = (before ++ y :: after) ++ [z] := by simpa using heq
      exact h before y after (List.append_inj_left' heq' rfl)

theorem isLaidOut_ofLines (ls : List Line) : IsLaidOut (ofLines ls) := by
  induction ls using List.reverseRecOn with
  | nil =>
    intro before x after h
    exact absurd h (by simp [ofLines])
  | append_singleton ls l ih =>
    rw [ofLines, List.foldl_append]
    exact isLaidOut_append_singleton.mpr ⟨ih, rfl⟩

/-- A split of rows with one more row is a split before that row, or at it. -/
theorem append_singleton_split {rows before after : List Row} {x d : Row}
    (h : rows ++ [x] = before ++ d :: after) :
    (rows = before ∧ x = d ∧ after = []) ∨
      ∃ after', after = after' ++ [x] ∧ rows = before ++ d :: after' := by
  rcases List.eq_nil_or_concat after with rfl | ⟨after', y, rfl⟩
  · exact Or.inl (by simpa using h)
  · have h' : rows ++ [x] = (before ++ d :: after') ++ [y] := by simpa using h
    obtain ⟨hrows, hx⟩ := List.append_inj' h' rfl
    obtain rfl : x = y := by simpa using hx
    exact Or.inr ⟨after', List.concat_eq_append, hrows⟩

/-- A row inside a style block is no directive. -/
theorem not_inStyle_of_directive? {d : Row} (h : d.directive?.isSome) : d.inStyle = false := by
  cases hd : d.inStyle with
  | false => rfl
  | true => exact absurd h (by simp [Row.directive?, Row.kind?, hd])

/-- **The open style block is that of a directive that stays open.** -/
theorem openStyle_eq_some_iff {rows : List Row} (h : IsLaidOut rows) {m : Nat} :
    openStyle rows = some m ↔
      ∃ (before : List Row) (d : Row) (after : List Row), rows = before ++ d :: after ∧
      d.directive?.isSome ∧ d.indent = m ∧ d.StaysOpen after := by
  induction rows using List.reverseRecOn generalizing m with
  | nil => simp [openStyle]
  | append_singleton rows x ih =>
    obtain ⟨hrows, hx⟩ := isLaidOut_append_singleton.mp h
    have ih := fun {m} => ih hrows (m := m)
    -- A directive that stays open until `x` has `x` in its block, so `x` closes scopes only there.
    have hearlier {before d after} (heq : rows = before ++ d :: after) (hd : d.directive?.isSome)
        (hopen : d.StaysOpen (after ++ [x])) (hcloses : x.closesScopes) : x.inStyle := by
      obtain ⟨hafter, hlt⟩ := Row.staysOpen_append_singleton.mp hopen
      rw [hx, ih.mpr ⟨before, d, after, heq, hd, rfl, hafter⟩]
      simpa using hlt hcloses
    rw [openStyle_append_singleton]
    rcases x.styleAfter_cases (openStyle rows) with
      ⟨hd, hs⟩ | ⟨hd, hout, hs, hcloses⟩ | ⟨hd, hs, hcloses⟩
    · rw [hs]
      constructor
      · intro hm
        exact ⟨rows, x, [], rfl, hd, by simpa using hm, Row.staysOpen_nil x⟩
      · rintro ⟨before, d, after, heq, hd', rfl, hopen⟩
        rcases append_singleton_split heq with ⟨-, rfl, -⟩ | ⟨after, rfl, hrest⟩
        · rfl
        · have hin := hearlier hrest hd' hopen (Row.closesScopes_of_directive? hd)
          exact absurd hin (by simp [not_inStyle_of_directive? hd])
    · rw [hs]
      constructor
      · intro hm
        exact absurd hm (by simp)
      · rintro ⟨before, d, after, heq, hd', rfl, hopen⟩
        rcases append_singleton_split heq with ⟨-, rfl, -⟩ | ⟨after, rfl, hrest⟩
        · exact absurd hd' (by simp [hd])
        · exact absurd (hearlier hrest hd' hopen hcloses) (by simp [hout])
    · rw [hs]
      constructor
      · intro hm
        obtain ⟨before, d, after, rfl, hd', rfl, hopen⟩ := ih.mp hm
        refine ⟨before, d, after ++ [x], by simp, hd', rfl, ?_⟩
        refine Row.staysOpen_append_singleton.mpr ⟨hopen, fun hc => ?_⟩
        have hin := hcloses hc
        rw [hx, hm] at hin
        simpa using hin
      · rintro ⟨before, d, after, heq, hd', rfl, hopen⟩
        rcases append_singleton_split heq with ⟨-, rfl, -⟩ | ⟨after, rfl, hrest⟩
        · exact absurd hd' (by simp [hd])
        · exact ih.mpr ⟨before, d, after, hrest, hd', rfl,
            (Row.staysOpen_append_singleton.mp hopen).1⟩

/-- **A line is inside a style block exactly when a directive reaches it.** -/
theorem inStyle_iff {rows before after : List Row} {x : Row} (h : IsLaidOut rows)
    (hrows : rows = before ++ x :: after) :
    x.inStyle ↔ ∃ (b : List Row) (d : Row) (bs : List Row), before = b ++ d :: bs ∧
      d.directive?.isSome ∧ d.Reaches bs x.indent := by
  have hbefore : IsLaidOut before := IsLaidOut.of_append (hrows ▸ h)
  rw [h before x after hrows]
  constructor
  · intro hin
    cases hm : openStyle before with
    | none => exact absurd hin (by simp [hm])
    | some m =>
      obtain ⟨b, d, bs, heq, hd, rfl, hopen⟩ := (openStyle_eq_some_iff hbefore).mp hm
      rw [hm] at hin
      exact ⟨b, d, bs, heq, hd, by simpa using hin, hopen⟩
  · rintro ⟨b, d, bs, heq, hd, hlt, hopen⟩
    rw [(openStyle_eq_some_iff hbefore).mpr ⟨b, d, bs, heq, hd, rfl, hopen⟩]
    simpa using hlt

/-- **Inside the block of a directive no element opens or closes**: the open rows are those that are
indented less than the directive. -/
theorem openRows_of_block {b bs : List Row} {d : Row} (h : IsLaidOut (b ++ d :: bs))
    (hd : d.directive?.isSome) (hopen : d.StaysOpen bs) :
    openRows (b ++ d :: bs) = (openRows b).filter fun a => a.indent < d.indent := by
  induction bs using List.reverseRecOn with
  | nil =>
    rw [openRows_append_singleton, if_neg (Row.not_tag?_of_directive? hd)]
    simp [Row.closesScopes_of_directive? hd]
  | append_singleton bs x ih =>
    obtain ⟨hopen, hlt⟩ := Row.staysOpen_append_singleton.mp hopen
    have hsplit : b ++ d :: (bs ++ [x]) = (b ++ d :: bs) ++ [x] := by simp
    rw [hsplit] at h ⊢
    obtain ⟨hrows, hx⟩ := isLaidOut_append_singleton.mp h
    by_cases hc : x.closesScopes
    · -- The row is a declaration of the block, indented deeper than all that is open.
      have hin : x.inStyle := by
        rw [hx, (openStyle_eq_some_iff hrows).mpr ⟨b, d, bs, rfl, hd, rfl, hopen⟩]
        simpa using hlt hc
      rw [openRows_append_singleton, if_neg (Row.not_tag?_of_inStyle hin), ih hrows hopen,
        List.nil_append, List.filter_filter]
      refine List.filter_congr fun a _ => ?_
      by_cases ha : a.indent < d.indent
      · simp [ha, Nat.lt_trans ha (hlt hc)]
      · simp [ha]
    · rw [openRows_of_not_closesScopes _ hc, ih hrows hopen]

/-- **A line inside a block has the parent of the directive.** -/
theorem parent?_of_block {b bs : List Row} {d : Row} (h : IsLaidOut (b ++ d :: bs))
    (hd : d.directive?.isSome) {indent : Nat} (hreach : d.Reaches bs indent) :
    parent? indent (b ++ d :: bs) = parent? d.indent b := by
  rw [parent?_eq_find?, parent?_eq_find?, openRows_of_block h hd hreach.2, List.find?_filter]
  congr 1
  funext a
  by_cases ha : a.indent < d.indent
  · simp [ha, Nat.lt_trans ha hreach.1]
  · simp [ha]

/-- Whatever is open is indented less than the open style block. -/
theorem indent_lt_of_openStyle {rows : List Row} (h : IsLaidOut rows) {m : Nat}
    (hm : openStyle rows = some m) : ∀ a ∈ openRows rows, a.indent < m := by
  obtain ⟨b, d, bs, rfl, hd, rfl, hopen⟩ := (openStyle_eq_some_iff h).mp hm
  intro a ha
  rw [openRows_of_block h hd hopen] at ha
  simpa using (List.mem_filter.mp ha).2

/-! ### The nodes of a source -/

/-- Each row with the rows before it, given the rows before them all. -/
def placedFrom (before : List Row) : List Row → List (List Row × Row)
  | [] => []
  | x :: after => (before, x) :: placedFrom (before ++ [x]) after

/-- Each row with the rows before it. -/
def placed (rows : List Row) : List (List Row × Row) := placedFrom [] rows

/-- The declarations that a row receives: those of the style rows whose parent it is, in order. -/
def received (rows : List Row) (a : Row) : List StyleProperty :=
  (placed rows).flatMap fun (before, x) =>
    if parent? x.indent before = some a then x.declarations else []

/-- The element of a tag line, with the declarations that it receives. -/
def element? (rows : List Row) (a : Row) : Option Element :=
  a.tag?.map fun t => (Reading.elementOf a.line t).element.addStyle (received rows a)

/-- The text run of a text line. -/
def run? (x : Row) : Option TextRun := x.text?.map fun t => ⟨t.text, t.binding, x.line.position⟩

/-- The node of a tag line or a text line, without what is below it. -/
def item? (rows : List Row) (x : Row) : Option Item :=
  ((element? rows x).map Item.element).or ((run? x).map Item.text)

/-- The node of a row with its parent, if the row is a tag line or a text line. -/
def parentedItem? (rows : List Row) : List Row × Row → Option (Option Element × Item)
  | (before, x) => (item? rows x).map fun i => ((parent? x.indent before).bind (element? rows), i)

/-- **The nodes of a source with their parents**, one for each tag line and each text line, in the
order of the lines. -/
def entries (rows : List Row) : List (Option Element × Item) :=
  (placed rows).filterMap (parentedItem? rows)

theorem placedFrom_append_singleton (before rows : List Row) (x : Row) :
    placedFrom before (rows ++ [x]) = placedFrom before rows ++ [(before ++ rows, x)] := by
  induction rows generalizing before with
  | nil => simp [placedFrom]
  | cons y rows ih => simp [placedFrom, ih]

theorem placed_append_singleton (rows : List Row) (x : Row) :
    placed (rows ++ [x]) = placed rows ++ [(rows, x)] := by
  rw [placed, placedFrom_append_singleton, List.nil_append, placed]

theorem map_snd_placed (rows : List Row) : (placed rows).map Prod.snd = rows := by
  induction rows using List.reverseRecOn with
  | nil => rfl
  | append_singleton rows x ih => simp [placed_append_singleton, ih]

theorem mem_placed_iff {rows before : List Row} {x : Row} :
    (before, x) ∈ placed rows ↔ ∃ after, rows = before ++ x :: after := by
  induction rows using List.reverseRecOn with
  | nil => simp [placed, placedFrom]
  | append_singleton rows y ih =>
    rw [placed_append_singleton, List.mem_append, ih]
    constructor
    · rintro (⟨after, rfl⟩ | h)
      · exact ⟨after ++ [y], by simp⟩
      · obtain ⟨rfl, rfl⟩ : before = rows ∧ x = y := by simpa using h
        exact ⟨[], rfl⟩
    · rintro ⟨after, heq⟩
      rcases append_singleton_split heq with ⟨rfl, rfl, -⟩ | ⟨after, -, hrest⟩
      · exact Or.inr (by simp)
      · exact Or.inl ⟨after, hrest⟩

theorem received_append_singleton (rows : List Row) (x a : Row) :
    received (rows ++ [x]) a =
      received rows a ++ (if parent? x.indent rows = some a then x.declarations else []) := by
  simp [received, placed_append_singleton]

/-- **What a row without declarations leaves alone**: every element there is. -/
theorem element?_of_no_declarations (rows : List Row) {x : Row} (h : x.declarations = []) :
    element? (rows ++ [x]) = element? rows := by
  funext a
  simp [element?, received_append_singleton, h]

theorem entries_of_no_declarations (rows : List Row) {x : Row} (h : x.declarations = []) :
    entries (rows ++ [x]) = entries rows ++ (parentedItem? rows (rows, x)).toList := by
  have hentry : parentedItem? (rows ++ [x]) = parentedItem? rows := by
    funext y
    simp [parentedItem?, item?, element?_of_no_declarations rows h]
  rw [entries, placed_append_singleton, List.filterMap_append, hentry, entries]
  rfl

/-- A row that comes later receives nothing from the rows before it. -/
theorem received_eq_nil {rows : List Row} {x : Row} (h : x ∉ rows) : received rows x = [] := by
  rw [received, List.flatMap_eq_nil_iff]
  rintro ⟨before, y⟩ hy
  obtain ⟨after, rfl⟩ := mem_placed_iff.mp hy
  refine if_neg fun hparent => h ?_
  exact List.mem_append_left _ (mem_of_parent? hparent).1

theorem position_of_element? {rows : List Row} {a : Row} {e : Element}
    (h : element? rows a = some e) : e.position = a.line.position := by
  obtain ⟨t, -, rfl⟩ := Option.map_eq_some_iff.mp h
  exact Reading.elementOf_position a.line t

theorem position_of_item? {rows : List Row} {x : Row} {i : Item} (h : item? rows x = some i) :
    i.position = x.line.position := by
  rw [item?, Option.or_eq_some_iff] at h
  rcases h with h | ⟨-, h⟩
  · obtain ⟨e, he, rfl⟩ := Option.map_eq_some_iff.mp h
    exact position_of_element? he
  · obtain ⟨r, hr, rfl⟩ := Option.map_eq_some_iff.mp h
    obtain ⟨t, -, rfl⟩ := Option.map_eq_some_iff.mp hr
    rfl

/-- A row that is neither a tag line nor a text line makes no node. -/
theorem item?_eq_none {x : Row} (htag : x.tag? = none) (htext : x.text? = none) (rows : List Row) :
    item? rows x = none := by
  simp [item?, element?, run?, htag, htext]

/-- The positions of the nodes are among those of the rows, in the same order. -/
theorem positions_entries_sublist (rows : List Row) :
    ((entries rows).map fun y => y.2.position).Sublist (rows.map fun x => x.line.position) := by
  have hsub : ∀ ys : List (List Row × Row),
      ((ys.filterMap (parentedItem? rows)).map fun y => y.2.position).Sublist
        ((ys.map Prod.snd).map fun x => x.line.position) := by
    intro ys
    induction ys with
    | nil => simp
    | cons y ys ih =>
      obtain ⟨before, x⟩ := y
      cases hi : item? rows x with
      | none => simpa [parentedItem?, hi] using ih.cons _
      | some i => simpa [parentedItem?, hi, position_of_item? hi] using ih
  have := hsub (placed rows)
  rwa [map_snd_placed] at this

section Restyle

variable {rows : List Row} {x a : Row} (hnodup : (rows.map fun y => y.line.position).Nodup)

include hnodup

/-- Rows with distinct positions are known by their positions. -/
theorem eq_of_position_eq {b : Row} (ha : a ∈ rows) (hb : b ∈ rows)
    (h : b.line.position = a.line.position) : b = a :=
  List.inj_on_of_nodup_map hnodup hb ha h

/-- **The declarations of a row go to its parent**, and to no other element. -/
theorem element?_of_parent? (hparent : parent? x.indent rows = some a) {b : Row} (hb : b ∈ rows) :
    element? (rows ++ [x]) b = (element? rows b).map
      (Element.changeAt a.line.position fun e => e.addStyle x.declarations) := by
  rw [element?, element?, Option.map_map, received_append_singleton, hparent]
  congr 1
  funext t
  have hposition : ((Reading.elementOf b.line t).element.addStyle (received rows b)).position =
      b.line.position := Reading.elementOf_position b.line t
  by_cases hab : a = b
  · subst hab
    rw [Function.comp_apply, Element.changeAt, if_pos hposition, if_pos rfl,
      Element.addStyle_append]
  · have hne : b.line.position ≠ a.line.position := by
      intro h
      exact hab (eq_of_position_eq hnodup (mem_of_parent? hparent).1 hb h).symm
    rw [Function.comp_apply, Element.changeAt_of_ne _ (hposition ▸ hne),
      if_neg (by simpa using hab), List.append_nil]

theorem item?_of_parent? (hparent : parent? x.indent rows = some a) {b : Row} (hb : b ∈ rows) :
    item? (rows ++ [x]) b = (item? rows b).map (Item.mapElement
      (Element.changeAt a.line.position fun e => e.addStyle x.declarations)) := by
  rw [item?, item?, element?_of_parent? hnodup hparent hb]
  cases element? rows b with
  | some e => rfl
  | none => cases run? b <;> rfl

/-- The declarations of a row that is no node change the entries of its parent, where it stands
itself and above its children. -/
theorem entries_of_parent? (hparent : parent? x.indent rows = some a)
    (hitem : item? (rows ++ [x]) x = none) :
    entries (rows ++ [x]) = (entries rows).map (Node.changeEntry
      (Element.changeAt a.line.position fun e => e.addStyle x.declarations)) := by
  rw [entries, placed_append_singleton, List.filterMap_append, entries, List.map_filterMap]
  have hlast : [(rows, x)].filterMap (parentedItem? (rows ++ [x])) = [] := by
    simp [parentedItem?, hitem]
  rw [hlast, List.append_nil]
  refine List.filterMap_congr fun y hy => ?_
  obtain ⟨before, b⟩ := y
  obtain ⟨after, rfl⟩ := mem_placed_iff.mp hy
  have hb : b ∈ before ++ b :: after := by simp
  rw [parentedItem?, parentedItem?, item?_of_parent? hnodup hparent hb, Option.map_map,
    Option.map_map]
  congr 1
  funext i
  rw [Function.comp_apply, Function.comp_apply, Node.changeEntry]
  congr 1
  cases hp : parent? b.indent before with
  | none => rfl
  | some c =>
    have hc : c ∈ before ++ b :: after := List.mem_append_left _ (mem_of_parent? hp).1
    exact element?_of_parent? hnodup hparent hc

end Restyle

/-- The declarations of a row without a parent are lost. -/
theorem entries_of_orphan {rows : List Row} {x : Row} (hparent : parent? x.indent rows = none)
    (hitem : item? (rows ++ [x]) x = none) : entries (rows ++ [x]) = entries rows := by
  have helement : element? (rows ++ [x]) = element? rows := by
    funext a
    simp [element?, received_append_singleton, hparent]
  have hentry : parentedItem? (rows ++ [x]) = parentedItem? rows := by
    funext y
    simp [parentedItem?, item?, helement]
  have hlast : [(rows, x)].filterMap (parentedItem? (rows ++ [x])) = [] := by
    simp [parentedItem?, hitem]
  rw [entries, placed_append_singleton, List.filterMap_append, hlast, List.append_nil, hentry,
    entries]

end Layout

end LiveMarkup
