import LiveMarkup.Proofs.Html.Fragments

/-!
# What the page shows

The page has the source as the content of its editor and the document as an attribute of its frame.
Both are escaped in the same way, but they are read in different ways: the content of the editor
goes up to its end tag, the attribute up to a quote, and a line feed right behind the start tag of
the editor is not part of its content.

The page is written in fragments (`LiveMarkup.Playground.page_eq`), and these are read back,
whatever the source and the document are: nothing in them can be taken for a tag. So the editor and
the frame have what they were given (`LiveMarkup.Playground.page_shows`). What is lost is a line
feed that the source begins with, since nothing is written in front of it.
-/

namespace LiveMarkup

namespace Html

/-! ### Contents and values -/

/-- A text without the line feed that it begins with. -/
def dropFeed (s : Bytes) : Bytes := if s.head? = some (octet '\n') then s.tail else s

theorem dropFeed_eq_self_iff {s : Bytes} : dropFeed s = s ↔ s.head? ≠ some (octet '\n') := by
  rw [dropFeed]
  split_ifs with h
  · refine iff_of_false (fun heq => ?_) (fun hne => hne h)
    obtain ⟨s', rfl⟩ := List.head?_eq_some_iff.mp h
    simp at heq
  · exact iff_of_true rfl h

/-- The content of an element of a name, if it is a text. -/
def Token.content? (name : Bytes) : Token → Option Bytes
  | .plain n _ s =>
    if n = name then some (if n ∈ Markup.preformattedTags then dropFeed s else s) else none
  | _ => none

/-- The value of an attribute in an element of a name; where a key is given twice, the first
counts. -/
def Token.value? (name key : Bytes) : Token → Option (Option Bytes)
  | .plain n as _ | .start n as => if n = name then some (as.lookup key) else none
  | _ => none

/-- The texts of all elements of a name. -/
def contents (name : Bytes) (ts : List Token) : List Bytes := ts.filterMap (Token.content? name)

/-- The values of an attribute in all elements of a name. -/
def values (name key : Bytes) (ts : List Token) : List (Option Bytes) :=
  ts.filterMap (Token.value? name key)

/-! ### Line ends -/

/-- A text with all line ends as line feeds, as a document is read. -/
def unifyFeeds : Bytes → Bytes
  | [] => []
  | b :: s =>
    if b = octet '\r' then
      if s.head? = some (octet '\n') then unifyFeeds s else octet '\n' :: unifyFeeds s
    else b :: unifyFeeds s

theorem unifyFeeds_append_of_notMem {s : Bytes} (hs : octet '\r' ∉ s) (r : Bytes) :
    unifyFeeds (s ++ r) = s ++ unifyFeeds r := by
  induction s with
  | nil => rfl
  | cons b s ih =>
    rw [List.mem_cons, not_or] at hs
    rw [List.cons_append, unifyFeeds, if_neg (Ne.symm hs.1), ih hs.2, List.cons_append]

theorem unifyFeeds_of_notMem {s : Bytes} (hs : octet '\r' ∉ s) : unifyFeeds s = s := by
  have h := unifyFeeds_append_of_notMem hs []
  rwa [List.append_nil, unifyFeeds, List.append_nil] at h

/-- A line end is not cut where no line feed follows. -/
theorem unifyFeeds_append (s : Bytes) {r : Bytes} (hr : r.head? ≠ some (octet '\n')) :
    unifyFeeds (s ++ r) = unifyFeeds s ++ unifyFeeds r := by
  induction s with
  | nil => rfl
  | cons b s ih =>
    have hhead : (s ++ r).head? = some (octet '\n') ↔ s.head? = some (octet '\n') := by
      cases s with
      | nil => exact iff_of_false hr (by simp)
      | cons c s => rfl
    rw [List.cons_append, unifyFeeds, unifyFeeds]
    simp only [hhead, ih]
    split_ifs <;> rfl

theorem mem_of_mem_unifyFeeds {b : UInt8} (hb : b ≠ octet '\n') {s : Bytes}
    (h : b ∈ unifyFeeds s) : b ∈ s := by
  induction s with
  | nil => exact h
  | cons c s ih =>
    rw [unifyFeeds] at h
    split_ifs at h
    · exact List.mem_cons_of_mem c (ih h)
    · exact List.mem_cons_of_mem c (ih ((List.mem_cons.mp h).resolve_left hb))
    · rcases List.mem_cons.mp h with rfl | h
      · exact List.mem_cons_self
      · exact List.mem_cons_of_mem c (ih h)

end Html

namespace Playground

open Html

/-! ### Escaped texts -/

/-- The octets that are not written as they are. -/
def escapedOctets : List UInt8 :=
  [0, octet '"', octet '\'', octet '&', octet '<', octet '>']

theorem mem_escapedOctets_iff {b : UInt8} : b ∈ escapedOctets ↔
    b = 0 ∨ b = octet '"' ∨ b = octet '\'' ∨ b = octet '&' ∨ b = octet '<' ∨ b = octet '>' := by
  simp only [escapedOctets, List.mem_cons, List.not_mem_nil, or_false]

theorem escapeOctet_of_notMem {b : UInt8} (hb : b ∉ escapedOctets) : escapeOctet b = [b] := by
  simp only [mem_escapedOctets_iff, not_or] at hb
  obtain ⟨hnul, hquote, hsingle, hamp, hlt, hgt⟩ := hb
  rw [escapeOctet, if_neg hnul, if_neg hquote, if_neg hsingle, if_neg hamp, if_neg hlt, if_neg hgt]

theorem marks_notMem_escapeOctet (c : UInt8) :
    octet '<' ∉ escapeOctet c ∧ octet '>' ∉ escapeOctet c ∧ octet '"' ∉ escapeOctet c := by
  by_cases hc : c ∈ escapedOctets
  · rcases mem_escapedOctets_iff.mp hc with rfl | rfl | rfl | rfl | rfl | rfl <;> decide
  · rw [escapeOctet_of_notMem hc]
    simp only [List.mem_singleton]
    refine ⟨?_, ?_, ?_⟩ <;> rintro rfl <;> exact hc (by decide)

/-- **What has a meaning in HTML is not in an escaped text.** -/
theorem notMem_escape {b : UInt8} (hb : b ∈ [octet '<', octet '>', octet '"']) (s : Bytes) :
    b ∉ escape s := by
  rintro hmem
  obtain ⟨c, -, hc⟩ := List.mem_flatMap.mp hmem
  obtain ⟨hlt, hgt, hquote⟩ := marks_notMem_escapeOctet c
  simp only [List.mem_cons, List.not_mem_nil, or_false] at hb
  rcases hb with rfl | rfl | rfl
  · exact hlt hc
  · exact hgt hc
  · exact hquote hc

/-- A line feed is written as it is, and nothing else begins with one. -/
theorem head?_escapeOctet (b : UInt8) :
    escapeOctet b ≠ [] ∧ ((escapeOctet b).head? = some (octet '\n') ↔ b = octet '\n') := by
  by_cases hb : b ∈ escapedOctets
  · rcases mem_escapedOctets_iff.mp hb with rfl | rfl | rfl | rfl | rfl | rfl <;> decide
  · rw [escapeOctet_of_notMem hb]
    simp

theorem head?_escape_eq_feed_iff (s : Bytes) :
    (escape s).head? = some (octet '\n') ↔ s.head? = some (octet '\n') := by
  cases s with
  | nil => exact Iff.rfl
  | cons b s =>
    obtain ⟨hne, hhead⟩ := head?_escapeOctet b
    rw [escape, List.flatMap_cons, List.head?_append_of_ne_nil _ hne, hhead, List.head?_cons,
      Option.some.injEq]

theorem unifyFeeds_escape (s : Bytes) : unifyFeeds (escape s) = escape (unifyFeeds s) := by
  induction s with
  | nil => rfl
  | cons b s ih =>
    have hcons : escape (b :: s) = escapeOctet b ++ escape s := List.flatMap_cons
    by_cases hb : b = octet '\r'
    · subst hb
      rw [hcons, unifyFeeds]
      change unifyFeeds (octet '\r' :: escape s) = _
      rw [unifyFeeds]
      simp only [head?_escape_eq_feed_iff, ih]
      split_ifs <;> rfl
    · have hnot : octet '\r' ∉ escapeOctet b := by
        by_cases hbs : b ∈ escapedOctets
        · rcases mem_escapedOctets_iff.mp hbs with rfl | rfl | rfl | rfl | rfl | rfl <;> decide
        · rw [escapeOctet_of_notMem hbs, List.mem_singleton]
          exact Ne.symm hb
      rw [hcons, unifyFeeds_append_of_notMem hnot, ih, unifyFeeds, if_neg hb]
      rfl

/-- **The line ends of the page are those of the source and of the document.** -/
theorem unifyFeeds_page (src doc : Bytes) :
    unifyFeeds (page src doc) = page (unifyFeeds src) (unifyFeeds doc) := by
  have hopening : octet '\r' ∉ opening := by decide +kernel
  have hmiddle : octet '\r' ∉ middle := by decide +kernel
  have hclosing : octet '\r' ∉ closing := by decide +kernel
  have hlt : (middle ++ (escape doc ++ closing)).head? ≠ some (octet '\n') := fun h =>
    absurd (show some (octet '<') = some (octet '\n') from h) (by decide)
  simp only [page, List.append_assoc]
  rw [unifyFeeds_append_of_notMem hopening, unifyFeeds_append _ hlt, unifyFeeds_escape,
    unifyFeeds_append_of_notMem hmiddle, unifyFeeds_append _ (by decide +kernel), unifyFeeds_escape,
    unifyFeeds_of_notMem hclosing]

/-! ### The fragments of the page -/

/-- The fragments of the page up to the editor. -/
def openingFragments : List Fragment :=
  [.declaration (utf8 "doctype html"), .start (utf8 "html") [(utf8 "lang", utf8 "en")],
    .start (utf8 "head") [], .start (utf8 "meta") [(utf8 "charset", utf8 "utf-8")],
    .leaf (utf8 "title") [] title, .leaf (utf8 "style") [] styleSheet, .finish (utf8 "head"),
    .start (utf8 "body") [], .leaf (utf8 "header") [] title, .start (utf8 "main") []]

/-- The fragments of the page behind the frame. -/
def closingFragments : List Fragment :=
  [.finish (utf8 "main"), .leaf (utf8 "pre") [(utf8 "id", utf8 "diagnostics")] [],
    .leaf (utf8 "script") [] script, .finish (utf8 "body"), .finish (utf8 "html")]

/-- The editor with a content. -/
def editor (content : Bytes) : Fragment :=
  .leaf (utf8 "textarea") [(utf8 "id", utf8 "source"), (utf8 "spellcheck", utf8 "false")] content

/-- The attributes of the frame but for its document. -/
def frameAttributes : Attributes :=
  [(utf8 "id", utf8 "preview"), (utf8 "sandbox", utf8 "allow-scripts")]

/-- The frame with a document. -/
def frame (doc : Bytes) : Fragment :=
  .leaf (utf8 "iframe") (frameAttributes ++ [(utf8 "srcdoc", doc)]) []

/-- **The page is an editor and a frame**, with other fragments around them. -/
theorem page_eq (src doc : Bytes) : page src doc =
    (openingFragments ++ [editor (escape src), frame (escape doc)] ++ closingFragments).flatMap
      Fragment.written := by
  have hopening : opening = openingFragments.flatMap Fragment.written ++ startText (utf8 "textarea")
      [(utf8 "id", utf8 "source"), (utf8 "spellcheck", utf8 "false")] := by decide +kernel
  have hmiddle : middle = finishText (utf8 "textarea") ++ (utf8 "<" ++ utf8 "iframe" ++
      frameAttributes.flatMap attributeText ++ utf8 " " ++ utf8 "srcdoc" ++ utf8 "=\"") := by
    decide +kernel
  have hclosing : closing = utf8 "\"" ++ utf8 ">" ++ finishText (utf8 "iframe") ++
      closingFragments.flatMap Fragment.written := by decide +kernel
  -- The frame's start tag is cut in two where its document stands.
  rw [page, hopening, hmiddle, hclosing]
  simp only [editor, frame, Fragment.written, startText, attributeText, List.flatMap_append,
    List.flatMap_cons, List.flatMap_nil, List.append_nil, List.append_assoc]

theorem isSound_fragments (src doc : Bytes) :
    ∀ f ∈ openingFragments ++ [editor (escape src), frame (escape doc)] ++ closingFragments,
      f.IsSound := by
  have hopening : ∀ f ∈ openingFragments, f.IsSound := by decide +kernel
  have hclosing : ∀ f ∈ closingFragments, f.IsSound := by decide +kernel
  have heditor : (editor (escape src)).IsSound :=
    ⟨by decide, by decide, notMem_escape (by decide) src⟩
  have hkey : IsWord (utf8 "srcdoc") := by decide
  have hvalue : AreWritable [(utf8 "srcdoc", escape doc)] :=
    List.forall_mem_singleton.mpr ⟨hkey, notMem_escape (by decide) doc⟩
  have hframe : (frame (escape doc)).IsSound :=
    ⟨by decide, List.forall_mem_append.mpr ⟨by decide, hvalue⟩, by decide⟩
  simp only [List.forall_mem_append, List.forall_mem_cons]
  exact ⟨⟨hopening, heditor, hframe, List.forall_mem_nil _⟩, hclosing⟩

/-! ### Reading the page -/

variable {t : Names}

/-- What is looked for in the page, and is not around the editor and the frame, is in these. -/
theorem filterMap_tokens_page {α : Type} (f : Token → Option α)
    (hopening : (openingFragments.flatMap t.tokensOf).filterMap f = [])
    (hclosing : (closingFragments.flatMap t.tokensOf).filterMap f = []) (src doc : Bytes) :
    (t.tokens (page src doc)).filterMap f =
      (t.tokensOf (editor (escape src)) ++ t.tokensOf (frame (escape doc))).filterMap f := by
  rw [page_eq, Names.tokens_written (isSound_fragments src doc)]
  simp only [List.flatMap_append, List.flatMap_cons, List.flatMap_nil, List.append_nil]
  rw [List.filterMap_append, List.filterMap_append, hopening, hclosing, List.nil_append,
    List.append_nil]

/-- **The editor shows the source**, but for a line feed that it begins with. -/
theorem contents_page {src : Bytes} (hsrc : 0 ∉ src) (doc : Bytes) :
    contents (utf8 "textarea") (t.tokens (page src doc)) = [dropFeed src] := by
  have heditor : contents (utf8 "textarea") (t.tokens (page src doc)) =
      [dropFeed (t.decode false (escape src))] := filterMap_tokens_page _ rfl rfl src doc
  rw [heditor, Names.decode_escape hsrc]

/-- **The frame has the document.** -/
theorem values_page (src : Bytes) {doc : Bytes} (hdoc : 0 ∉ doc) :
    values (utf8 "iframe") (utf8 "srcdoc") (t.tokens (page src doc)) = [some doc] := by
  have hframe : values (utf8 "iframe") (utf8 "srcdoc") (t.tokens (page src doc)) =
      [some (t.decode true (escape doc))] := filterMap_tokens_page _ rfl rfl src doc
  rw [hframe, Names.decode_escape hdoc]

/-- Escaped texts add nothing that has a meaning in HTML. -/
theorem count_page {b : UInt8} (hb : b ∈ [octet '<', octet '>', octet '"']) (src doc : Bytes) :
    (page src doc).count b = (page [] []).count b := by
  simp only [page, List.count_append, List.count_eq_zero_of_not_mem (notMem_escape hb _)]

/-- **The page shows the source and the document that it was given.** The one editor has the source
as its content if and only if the source does not begin with a line feed, and else all of it but
that line feed; the one frame has the document. If the line ends of the page are read as line feeds,
then so are those of the document. There are no more brackets and quotes in the page than there are
without source and document. -/
theorem page_shows (t : Names) (src doc : Bytes) (hsrc : 0 ∉ src) (hreturn : octet '\r' ∉ src)
    (hdoc : 0 ∉ doc) :
    let read := t.tokens (page src doc)
    let unified := t.tokens (unifyFeeds (page src doc))
    (contents (utf8 "textarea") read = [src] ↔ src.head? ≠ some (octet '\n')) ∧
    contents (utf8 "textarea") read = [dropFeed src] ∧
    values (utf8 "iframe") (utf8 "srcdoc") read = [some doc] ∧
    contents (utf8 "textarea") unified = [dropFeed src] ∧
    values (utf8 "iframe") (utf8 "srcdoc") unified = [some (unifyFeeds doc)] ∧
    ∀ b ∈ [octet '<', octet '>', octet '"'], (page src doc).count b = (page [] []).count b := by
  intro read unified
  have hunified : unified = t.tokens (page src (unifyFeeds doc)) := by
    change t.tokens (unifyFeeds (page src doc)) = _
    rw [unifyFeeds_page, unifyFeeds_of_notMem hreturn]
  have hdoc' : 0 ∉ unifyFeeds doc := fun h => hdoc (mem_of_mem_unifyFeeds (by decide) h)
  have hcontents : contents (utf8 "textarea") read = [dropFeed src] := contents_page hsrc doc
  refine ⟨?_, hcontents, values_page src hdoc, ?_, ?_, fun b hb => count_page hb src doc⟩
  · rw [hcontents, List.singleton_inj]
    exact dropFeed_eq_self_iff
  · rw [hunified]
    exact contents_page hsrc (unifyFeeds doc)
  · rw [hunified]
    exact values_page src hdoc'

/-- A source that would end the editor, and a document that would end the value. -/
theorem page_shows_marks :
    let src := utf8 "</textarea>&lt;"
    let doc := utf8 "\">&amp;\r\n"
    0 ∉ src ∧ octet '\r' ∉ src ∧ 0 ∉ doc ∧
      contents (utf8 "textarea") (Names.basic.tokens (page src doc)) = [src] ∧
      values (utf8 "iframe") (utf8 "srcdoc") (Names.basic.tokens (page src doc)) = [some doc] := by
  intro src doc
  obtain ⟨hsource, -, hdocument, -⟩ :=
    page_shows Names.basic src doc (by decide) (by decide) (by decide)
  exact ⟨by decide, by decide, by decide, hsource.mpr (by decide), hdocument⟩

/-- **A line feed at the start of a source is not shown.** -/
theorem page_hides_feed :
    let src := utf8 "\np"
    0 ∉ src ∧ octet '\r' ∉ src ∧ ∀ (t : Names) (doc : Bytes),
      contents (utf8 "textarea") (t.tokens (page src doc)) = [utf8 "p"] ∧ [utf8 "p"] ≠ [src] := by
  intro src
  refine ⟨by decide, by decide, fun t doc => ⟨?_, by decide⟩⟩
  rw [contents_page (by decide)]
  rfl

end Playground

end LiveMarkup
