import LiveMarkup.Proofs.Document.Numbering
import LiveMarkup.Proofs.Document.Rendering
import LiveMarkup.Proofs.Statement
import LiveMarkup.Proofs.Tree.Declarations

/-!
# The script of a document, line by line

The script of a document is a list of lines, `LiveMarkup.Script.lines`: one for each declared name,
one for each handler that the script carries out, and the fixed ones around them. It is written as
one text and escaped as a whole afterwards, and it is not clear at once that this leaves its lines
alone: an initializer is copied from the source as it is, and what is escaped depends on up to three
octets after a `<`.

* An escape does not reach over a line feed or a semicolon (`LiveMarkup.Script.escape_append_cons`),
  so a text is escaped line by line (`LiveMarkup.Script.escape_unlines`);
* all lines but those of initializers are safe already, and of these only the initializer changes
  (`LiveMarkup.Script.map_escape_lines`).

The main statement, `LiveMarkup.Document.script_line_by_line`, puts this together with the order of
the declarations of a source and the order of its handlers.
-/

namespace LiveMarkup

namespace Script

open Bytes

/-! ### The lines of a script -/

/-- The lines with which every script starts. -/
def openingLines : List Bytes := ["", "(function () \x7b", "  var state = \x7b\x7d;"].map utf8

/-- The lines with the functions of every script. -/
def preludeLines : List Bytes :=
  ["",
    "  function refresh(name) \x7b",
    "    var els = document.querySelectorAll('[data-bind=\"' + name + '\"]');",
    "    for (var i = 0; i < els.length; i++) \x7b",
    "      els[i].textContent = state[name];",
    "    \x7d",
    "  \x7d",
    "",
    "  function update(name, value) \x7b",
    "    state[name] = value;",
    "    refresh(name);",
    "  \x7d",
    "",
    "  function on(id, event, fn) \x7b",
    "    var el = document.querySelector('[data-on=\"' + id + '\"]');",
    "    if (el) \x7b",
    "      el.addEventListener(event, fn);",
    "    \x7d",
    "  \x7d"].map utf8

/-- The start of the line that initializes a state. -/
def initStart (name : Bytes) : Bytes := utf8 "  state[\"" ++ name ++ utf8 "\"] = "

/-- The line that initializes a state. -/
def initLine (name init : Bytes) : Bytes := initStart name ++ init ++ utf8 ";"

/-- The line that wires a handler. -/
def onLine (w : Wiring) : Bytes :=
  utf8 "  on(" ++ decimalNat w.id ++ utf8 ", " ++ scriptString w.event
    ++ utf8 ", function () \x7b update(" ++ scriptString (w.statement.action.target?.getD [])
    ++ utf8 ", " ++ w.statement.valueExpression ++ utf8 "); \x7d);"

/-- The line that shows a state at the start. -/
def refreshLine (name : Bytes) : Bytes := utf8 "  refresh(\"" ++ name ++ utf8 "\");"

/-- An empty line and some lines, if there are any. -/
def block (ls : List Bytes) : List Bytes := if ls.isEmpty then [] else [] :: ls

/-- **The lines of a script** for some names with their initializers and some handlers. -/
def lines (states : List (Bytes × Bytes)) (ws : List Wiring) : List Bytes :=
  openingLines ++ states.map (fun x => initLine x.1 x.2) ++ preludeLines ++ block (ws.map onLine) ++
    block (states.map fun x => refreshLine x.1) ++ [utf8 "\x7d)();"]

theorem unlines_block (ls : List Bytes) :
    unlines (block ls) = paragraph (ls.map fun l => l ++ [octet '\n']) := by
  rw [block, paragraph, List.isEmpty_map]
  split
  · rfl
  · rw [unlines_cons, unlines, List.flatMap_def]
    rfl

/-- The script before its escaping is the text of its lines. -/
theorem source_eq_unlines {ds : List StateDeclaration} (h : ∀ d ∈ ds, isBinding d.name)
    (ws : List Wiring) :
    source ds ws = unlines (lines (ds.map fun d => (d.name, d.initializer)) ws) := by
  have hfeed : utf8 ";\n" = utf8 ";" ++ [octet '\n'] := rfl
  -- A name is a literal of its own, so the quotation marks can be written around it.
  have hinit : (ds.map initialization).flatten =
      unlines (ds.map fun d => initLine d.name d.initializer) := by
    rw [unlines, List.flatMap_map, List.flatMap_def]
    refine congrArg List.flatten (List.map_congr_left fun d hd => ?_)
    rw [initialization, Action.stateReference, scriptString_of_isBinding (h d hd), initLine,
      initStart, hfeed]
    simp
    rfl
  have hon : ws.map wiring = (ws.map onLine).map fun l => l ++ [octet '\n'] := by
    rw [List.map_map]
    refine List.map_congr_left fun w _ => ?_
    rw [wiring, Function.comp_apply, onLine, List.append_assoc _ _ [octet '\n']]
    rfl
  have hrefresh : ds.map refresh =
      (ds.map fun d => refreshLine d.name).map fun l => l ++ [octet '\n'] := by
    rw [List.map_map]
    refine List.map_congr_left fun d hd => ?_
    rw [refresh, scriptString_of_isBinding (h d hd), Function.comp_apply, refreshLine]
    simp
    rfl
  -- The fixed parts are texts, which are compared as they are.
  have hopening : opening = unlines openingLines := by decide
  have hfunctions : functions = unlines preludeLines := by decide +kernel
  have hclosing : closing = unlines [utf8 "\x7d)();"] := by decide
  have hlines : lines (ds.map fun d => (d.name, d.initializer)) ws =
      openingLines ++ ds.map (fun d => initLine d.name d.initializer) ++ preludeLines ++
        block (ws.map onLine) ++ block (ds.map fun d => refreshLine d.name) ++
        [utf8 "\x7d)();"] := by
    rw [lines, List.map_map, List.map_map]
    rfl
  rw [hlines, unlines_append, unlines_append, unlines_append, unlines_append, unlines_append,
    unlines_block, unlines_block, source, hinit, hon, hrefresh, hopening, hfunctions, hclosing]

/-! ### Escaping -/

theorem escape_cons_of_ne {b : UInt8} (hb : b ≠ octet '<') (r : Bytes) :
    escape (b :: r) = b :: escape r := by
  rw [escape, if_neg fun hand => hb hand.1]

/-- A text without `<` in front of another one is left as it is. -/
theorem escape_append {s : Bytes} (h : octet '<' ∉ s) (r : Bytes) :
    escape (s ++ r) = s ++ escape r := by
  induction s with
  | nil => rfl
  | cons b s ih =>
    rw [List.mem_cons, not_or] at h
    rw [List.cons_append, escape_cons_of_ne (Ne.symm h.1), ih h.2, List.cons_append]

theorem escape_append_of_avoids {s : Bytes} (h : avoids breaking s) (r : Bytes) :
    escape (s ++ r) = s ++ escape r :=
  escape_append (fun hmem => avoids_iff.mp h _ hmem (by decide)) r

theorem escape_of_avoids {s : Bytes} (h : avoids breaking s) : escape s = s := by
  have happend := escape_append_of_avoids h []
  rwa [List.append_nil, show escape [] = [] from rfl, List.append_nil] at happend

theorem isSome_after?_append_cons {p : Bytes} {c : UInt8} (hc : c ∉ p) (s r : Bytes) :
    (after? p (s ++ c :: r)).isSome = (after? p s).isSome := by
  induction p generalizing s with
  | nil => rfl
  | cons a p ih =>
    rw [List.mem_cons, not_or] at hc
    cases s with
    | nil =>
      have hfirst : after? (a :: p) (c :: r) = none := by rw [after?, if_neg (Ne.symm hc.1)]
      rw [List.nil_append, hfirst]
      rfl
    | cons b s =>
      rw [List.cons_append, after?, after?]
      split
      · exact ih hc.2 s
      · rfl

/-- **What is escaped is decided in front of an octet that no escape looks for.** -/
theorem escape_append_cons {c : UInt8} (hc : c ∉ utf8 "</!-") (s r : Bytes) :
    escape (s ++ c :: r) = escape s ++ c :: escape r := by
  have hne {d : UInt8} (hd : d ∈ utf8 "</!-") : c ≠ d := by
    rintro rfl
    exact hc hd
  have hmark : c ∉ utf8 "!--" := by
    intro hmem
    have hcases : c ∈ [octet '!', octet '-', octet '-'] := hmem
    simp only [List.mem_cons, List.not_mem_nil, or_false, or_self] at hcases
    rcases hcases with h | h
    · exact hne (by decide) h
    · exact hne (by decide) h
  induction s with
  | nil =>
    have hlt : c ≠ octet '<' := hne (by decide)
    exact escape_cons_of_ne hlt r
  | cons b s ih =>
    -- Both questions that are asked behind `<` have the same answer with the octet and without it.
    have hhead : (s ++ c :: r).head? = some (octet '/') ↔ s.head? = some (octet '/') := by
      cases s with
      | nil =>
        constructor
        · intro h
          exact absurd (Option.some.inj h) (hne (by decide))
        · intro h
          exact absurd h (by simp)
      | cons d s => exact Iff.rfl
    rw [List.cons_append, escape, escape, isSome_after?_append_cons hmark]
    simp only [hhead]
    split
    · rw [ih, List.cons_append, List.cons_append]
    · rw [ih, List.cons_append]

theorem feed_notMem_escape {s : Bytes} (h : octet '\n' ∉ s) : octet '\n' ∉ escape s := by
  induction s with
  | nil => exact h
  | cons b s ih =>
    rw [List.mem_cons, not_or] at h
    have hs := ih h.2
    rw [escape]
    split
    · simp only [List.mem_cons, not_or]
      exact ⟨h.1, by decide, hs⟩
    · exact List.not_mem_cons_of_ne_of_not_mem h.1 hs

/-- **A text is escaped line by line.** -/
theorem escape_unlines (ls : List Bytes) : escape (unlines ls) = unlines (ls.map escape) := by
  induction ls with
  | nil => rfl
  | cons l ls ih =>
    rw [unlines_cons, escape_append_cons (by decide), ih, List.map_cons, unlines_cons]

theorem avoids_of_isBinding {x : Bytes} (h : isBinding x) : avoids breaking x := by
  refine avoids_of_all (p := isIdentOctet) (by decide) ?_
  rw [List.all_eq_true]
  exact forall_mem_isIdentOctet_of_isBinding h

theorem avoids_initStart {x : Bytes} (h : isBinding x) : avoids breaking (initStart x) := by
  rw [initStart, avoids_append, avoids_append, avoids_of_isBinding h]
  decide

theorem avoids_refreshLine {x : Bytes} (h : isBinding x) : avoids breaking (refreshLine x) := by
  rw [refreshLine, avoids_append, avoids_append, avoids_of_isBinding h]
  decide

theorem avoids_onLine {w : Wiring} (h : ∃ body, w.statement = Statement.ofBody body) :
    avoids breaking (onLine w) := by
  obtain ⟨body, hbody⟩ := h
  rw [onLine, hbody]
  simp only [avoids_append, avoids_decimalNat, avoids_scriptString,
    Statement.avoids_valueExpression, Bool.and_true]
  decide

theorem escape_initLine {x : Bytes} (h : isBinding x) (init : Bytes) :
    escape (initLine x init) = initLine x (escape init) := by
  have hsemicolon : escape (init ++ utf8 ";") = escape init ++ utf8 ";" :=
    escape_append_cons (by decide) init []
  rw [initLine, List.append_assoc, escape_append_of_avoids (avoids_initStart h), hsemicolon,
    initLine, List.append_assoc]

section Lines

variable {states : List (Bytes × Bytes)} {ws : List Wiring}

theorem map_escape_block {ls : List Bytes} (h : ∀ l ∈ ls, avoids breaking l) :
    (block ls).map escape = block ls := by
  have hls : ls.map escape = ls :=
    (List.map_congr_left fun l hl => escape_of_avoids (h l hl)).trans (List.map_id ls)
  rw [block]
  split
  · rfl
  · rw [List.map_cons, hls]
    rfl

/-- **Only the initializers of a script are escaped.** -/
theorem map_escape_lines (hnames : ∀ x ∈ states, isBinding x.1)
    (hws : ∀ w ∈ ws, ∃ body, w.statement = Statement.ofBody body) :
    (lines states ws).map escape = lines (states.map fun x => (x.1, escape x.2)) ws := by
  have hopening : openingLines.map escape = openingLines := by decide
  have hprelude : preludeLines.map escape = preludeLines := by decide
  have hinit : (states.map fun x => initLine x.1 x.2).map escape =
      states.map fun x => initLine x.1 (escape x.2) := by
    rw [List.map_map]
    exact List.map_congr_left fun x hx => escape_initLine (hnames x hx) x.2
  have hon : (block (ws.map onLine)).map escape = block (ws.map onLine) :=
    map_escape_block (List.forall_mem_map.mpr fun w hw => avoids_onLine (hws w hw))
  have hrefresh : (block (states.map fun x => refreshLine x.1)).map escape =
      block (states.map fun x => refreshLine x.1) :=
    map_escape_block (List.forall_mem_map.mpr fun x hx => avoids_refreshLine (hnames x hx))
  rw [lines, List.map_append, List.map_append, List.map_append, List.map_append, List.map_append,
    hopening, hprelude, hinit, hon, hrefresh, lines, List.map_map, List.map_map]
  rfl

/-- The lines of a script are lines. -/
theorem feed_notMem_lines (hnames : ∀ x ∈ states, isBinding x.1)
    (hinits : ∀ x ∈ states, octet '\n' ∉ x.2)
    (hws : ∀ w ∈ ws, ∃ body, w.statement = Statement.ofBody body) :
    ∀ l ∈ lines states ws, octet '\n' ∉ l := by
  have hblock {ls : List Bytes} (h : ∀ l ∈ ls, avoids breaking l) :
      ∀ l ∈ block ls, octet '\n' ∉ l := by
    intro l hl
    rw [block] at hl
    split at hl
    · exact absurd hl (by simp)
    · rcases List.mem_cons.mp hl with rfl | hl
      · simp
      · exact feed_notMem_of_avoids (h l hl)
  have hopening : ∀ l ∈ openingLines, octet '\n' ∉ l := by decide
  have hprelude : ∀ l ∈ preludeLines, octet '\n' ∉ l := by decide
  have hclosing : octet '\n' ∉ utf8 "\x7d)();" := by decide
  intro l hl
  rw [lines, List.mem_append, List.mem_append, List.mem_append, List.mem_append,
    List.mem_append] at hl
  rcases hl with ((((hl | hl) | hl) | hl) | hl) | hl
  · exact hopening l hl
  · obtain ⟨x, hx, rfl⟩ := List.mem_map.mp hl
    rw [initLine, List.mem_append, List.mem_append, not_or, not_or]
    exact ⟨⟨feed_notMem_of_avoids (avoids_initStart (hnames x hx)), hinits x hx⟩, by decide⟩
  · exact hprelude l hl
  · exact hblock (List.forall_mem_map.mpr fun w hw => avoids_onLine (hws w hw)) l hl
  · exact hblock (List.forall_mem_map.mpr fun x hx => avoids_refreshLine (hnames x hx)) l hl
  · rw [List.mem_singleton.mp hl]
    exact hclosing

/-! ### One line for each name -/

/-- Names in quotation marks are told apart, whatever follows. -/
theorem eq_of_quoted_start {x y r s : Bytes} (hx : isBinding x) (hy : isBinding y)
    (h : x ++ octet '"' :: r <+: y ++ octet '"' :: s) : x = y := by
  have hword {z : Bytes} (hz : isBinding z) (t : Bytes) :
      (z ++ octet '"' :: t).takeWhile isIdentOctet = z :=
    takeWhile_append_of_boundary (forall_mem_isIdentOctet_of_isBinding hz)
      (show isIdentOctet (octet '"') = false by decide)
  obtain ⟨t, ht⟩ := h
  rw [List.append_assoc, List.cons_append] at ht
  calc x = (x ++ octet '"' :: (r ++ t)).takeWhile isIdentOctet := (hword hx _).symm
    _ = (y ++ octet '"' :: s).takeWhile isIdentOctet := by rw [ht]
    _ = y := hword hy s

theorem initStart_isPrefixOf_initLine {x y init : Bytes} (hx : isBinding x) (hy : isBinding y) :
    (initStart x).isPrefixOf (initLine y init) ↔ y = x := by
  rw [List.isPrefixOf_iff_prefix]
  constructor
  · intro h
    rw [initLine, initStart, initStart, List.append_assoc, List.append_assoc, List.append_assoc,
      List.append_assoc, List.prefix_append_right_inj] at h
    exact (eq_of_quoted_start hx hy h).symm
  · rintro rfl
    rw [initLine, List.append_assoc]
    exact List.prefix_append _ _

theorem refreshLine_inj {x y : Bytes} (hx : isBinding x) (hy : isBinding y) :
    refreshLine x = refreshLine y ↔ x = y := by
  constructor
  · intro h
    rw [refreshLine, refreshLine, List.append_assoc, List.append_assoc,
      List.append_cancel_left_eq] at h
    have hstarts : x ++ utf8 "\");" <+: y ++ utf8 "\");" := ⟨[], by rw [List.append_nil, h]⟩
    exact eq_of_quoted_start hx hy hstarts
  · rintro rfl
    rfl

/-- The fixed lines of a script. -/
def fixedLines : List Bytes := openingLines ++ preludeLines ++ [[], utf8 "\x7d)();"]

/-- What is true of no fixed line and of no handler's line is counted among the lines of states. -/
theorem countP_lines {p : Bytes → Bool} (hfixed : ∀ l ∈ fixedLines, p l = false)
    (hon : ∀ w, p (onLine w) = false) : (lines states ws).countP p =
      states.countP (fun x => p (initLine x.1 x.2)) +
        states.countP fun x => p (refreshLine x.1) := by
  have hnone {ls : List Bytes} (h : ∀ l ∈ ls, l ∈ fixedLines) : ls.countP p = 0 :=
    List.countP_eq_zero.mpr fun l hl => by simp [hfixed l (h l hl)]
  have hempty : p [] = false := hfixed [] (by decide)
  have hblock (ls : List Bytes) : (block ls).countP p = ls.countP p := by
    rw [block]
    split
    · rename_i hls
      rw [List.isEmpty_iff.mp hls]
    · rw [List.countP_cons_of_neg (by simp [hempty])]
  have hwirings : (ws.map onLine).countP p = 0 :=
    List.countP_eq_zero.mpr (List.forall_mem_map.mpr fun w _ => by simp [hon w])
  have hopening : openingLines.countP p = 0 := hnone fun l hl => by simp [fixedLines, hl]
  have hprelude : preludeLines.countP p = 0 := hnone fun l hl => by simp [fixedLines, hl]
  have hclosing : [utf8 "\x7d)();"].countP p = 0 := hnone (by decide)
  rw [lines, List.countP_append, List.countP_append, List.countP_append, List.countP_append,
    List.countP_append, hblock, hblock, hwirings, hopening, hprelude, hclosing, List.countP_map,
    List.countP_map, Nat.zero_add, Nat.add_zero, Nat.add_zero]
  rfl

/-- **A name is initialized as often as it is listed.** -/
theorem countP_initStart (hnames : ∀ x ∈ states, isBinding x.1) {x : Bytes} (hx : isBinding x) :
    (lines states ws).countP (fun l => (initStart x).isPrefixOf l) =
      (states.map Prod.fst).count x := by
  -- The octet behind the indentation tells these lines from all other lines of a script.
  have hthird {l : Bytes} (h : (initStart x).isPrefixOf l = true) : l[2]? = some (octet 's') := by
    obtain ⟨r, rfl⟩ := List.isPrefixOf_iff_prefix.mp h
    rfl
  have hfixed : ∀ l ∈ fixedLines, l[2]? ≠ some (octet 's') := by decide
  rw [countP_lines]
  · have hrefresh : states.countP (fun y => (initStart x).isPrefixOf (refreshLine y.1)) = 0 := by
      refine List.countP_eq_zero.mpr fun y _ h => ?_
      exact absurd (show some (octet 'r') = some (octet 's') from hthird h) (by decide)
    rw [hrefresh, Nat.add_zero, List.count, List.countP_map]
    refine List.countP_congr fun y hy => ?_
    rw [initStart_isPrefixOf_initLine hx (hnames y hy)]
    exact beq_iff_eq.symm
  · intro l hl
    exact Bool.eq_false_iff.mpr fun h => hfixed l hl (hthird h)
  · intro w
    refine Bool.eq_false_iff.mpr fun h => ?_
    exact absurd (show some (octet 'o') = some (octet 's') from hthird h) (by decide)

/-- **A name is shown at the start as often as it is listed.** -/
theorem count_refreshLine (hnames : ∀ x ∈ states, isBinding x.1) {x : Bytes} (hx : isBinding x) :
    (lines states ws).count (refreshLine x) = (states.map Prod.fst).count x := by
  -- Again the octet behind the indentation tells the lines apart.
  have hthird {l : Bytes} (h : (l == refreshLine x) = true) : l[2]? = some (octet 'r') := by
    rw [eq_of_beq h]
    rfl
  have hfixed : ∀ l ∈ fixedLines, l[2]? ≠ some (octet 'r') := by decide
  rw [List.count, countP_lines]
  · have hinit : states.countP (fun y => initLine y.1 y.2 == refreshLine x) = 0 := by
      refine List.countP_eq_zero.mpr fun y _ h => ?_
      exact absurd (show some (octet 's') = some (octet 'r') from hthird h) (by decide)
    rw [hinit, Nat.zero_add, List.count, List.countP_map]
    refine List.countP_congr fun y hy => ?_
    rw [beq_iff_eq, refreshLine_inj (hnames y hy) hx]
    exact beq_iff_eq.symm
  · intro l hl
    exact Bool.eq_false_iff.mpr fun h => hfixed l hl (hthird h)
  · intro w
    refine Bool.eq_false_iff.mpr fun h => ?_
    exact absurd (show some (octet 'o') = some (octet 'r') from hthird h) (by decide)

end Lines

end Script

/-! ### The script of a source -/

/-- The handlers of a script are compiled from the statements of a source. -/
theorem Wiring.ofBody_of_mem {src : Bytes} {w : Wiring}
    (h : w ∈ (Document.elements (SourceTree.ofSource src).states
      (SourceTree.ofSource src).nodes).2.wirings) :
    ∃ body, w.statement = Statement.ofBody body := by
  rw [Document.wirings_elements] at h
  have hmem : (w.event, w.statement) ∈
      (ofNodes (SourceTree.ofSource src).nodes).map fun w => (w.event, w.statement) :=
    List.mem_map_of_mem h
  rw [map_ofNodes] at hmem
  obtain ⟨a, ha, heq⟩ := List.mem_map.mp hmem
  obtain ⟨e, he, hae⟩ := List.mem_flatMap.mp (List.mem_filter.mp ha).1
  obtain ⟨body, hbody⟩ := (Layout.spelt_of_mem_elements he).statements a hae
  exact ⟨body, (Prod.mk.inj heq).2.symm.trans hbody⟩

namespace Document

open Markup Script

/-- A script is needed exactly for a declaration or for a handler that it carries out. -/
theorem isSome_script_iff (src : Bytes) :
    let t := SourceTree.ofSource src
    (Script.text? t.states.declarations (elements t.states t.nodes).2.wirings).isSome ↔
      (Layout.ofSource src).filterMap Row.state? ≠ [] ∨ ∃ h ∈ t.handlers, h.isCompiled := by
  intro t
  have hstates : t.states.declarations = [] ↔ (Layout.ofSource src).filterMap Row.state? = [] := by
    have hnames : t.states.declarations.map (·.name) = _ := SourceTree.names_states src
    rw [← List.map_eq_nil_iff, hnames]
    constructor
    · intro h
      refine List.eq_nil_iff_forall_not_mem.mpr fun d hd => ?_
      have hmem := List.mem_eraseDups.mpr (List.mem_map_of_mem (f := StateLine.name) hd)
      rw [h] at hmem
      exact absurd hmem (by simp)
    · intro h
      rw [h]
      rfl
  have hwirings : (elements t.states t.nodes).2.wirings = [] ↔
      ¬∃ h ∈ t.handlers, h.isCompiled := by
    rw [wirings_elements, ← List.map_eq_nil_iff, Wiring.map_ofNodes,
      Layout.flatMap_handlers_elements, List.map_eq_nil_iff, List.filter_eq_nil_iff]
    exact ⟨fun h ⟨a, ha, hcompiled⟩ => h a ha hcompiled, fun h a ha hcompiled =>
      h ⟨a, ha, hcompiled⟩⟩
  rw [Script.text?]
  split
  · rename_i hempty
    rw [Bool.and_eq_true, List.isEmpty_iff, List.isEmpty_iff, hstates, hwirings] at hempty
    refine iff_of_false (by simp) (not_or.mpr ⟨not_not.mpr hempty.1, hempty.2⟩)
  · rename_i hsome
    rw [Bool.and_eq_true, List.isEmpty_iff, List.isEmpty_iff, hstates, hwirings] at hsome
    refine iff_of_true rfl ?_
    by_contra hnone
    rw [not_or, not_not] at hnone
    exact hsome hnone

/-- The names of a source with their escaped initializers. -/
def escapedStates (src : Bytes) : List (Bytes × Bytes) :=
  (SourceTree.ofSource src).states.declarations.map fun d => (d.name, Script.escape d.initializer)

theorem isBinding_of_mem_escapedStates {src : Bytes} :
    ∀ x ∈ escapedStates src, isBinding x.1 :=
  List.forall_mem_map.mpr fun _ => SourceTree.isBinding_of_mem_declarations

theorem map_fst_escapedStates (src : Bytes) :
    (escapedStates src).map Prod.fst = (SourceTree.ofSource src).states.names := by
  rw [escapedStates, List.map_map]
  rfl

/-- The order of the names and what they are initialized with, from the lines of the source. -/
theorem escapedStates_eq (src : Bytes) :
    let declared := (Layout.ofSource src).filterMap Row.state?
    escapedStates src = (declared.map StateLine.name).eraseDups.map fun x =>
      (x, Script.escape ((StateLine.lastInitializer? x declared).getD [])) := by
  intro declared
  have hmap := congrArg (List.map fun y : Bytes × Bytes => (y.1, Script.escape y.2))
    (SourceTree.map_declarations src)
  rw [List.map_map, List.map_map] at hmap
  exact hmap

/-- **The text of a script** is that of its lines, with the initializers escaped. -/
theorem script_eq_unlines {src s : Bytes} :
    let t := SourceTree.ofSource src
    let wirings := (elements t.states t.nodes).2.wirings
    Script.text? t.states.declarations wirings = some s →
      s = Bytes.unlines (Script.lines (escapedStates src) wirings) := by
  intro t wirings h
  rw [Script.text?] at h
  split at h
  · exact absurd h (by simp)
  · obtain rfl := Option.some.inj h
    have hbinding : ∀ d ∈ (SourceTree.ofSource src).states.declarations, isBinding d.name :=
      fun _ => SourceTree.isBinding_of_mem_declarations
    rw [source_eq_unlines hbinding, escape_unlines,
      map_escape_lines (List.forall_mem_map.mpr hbinding) fun _ => Wiring.ofBody_of_mem,
      List.map_map]
    rfl

/-- **The script of a document, line by line.** A document has one if its source declares a state or
has a compiled handler. Its lines are those of `LiveMarkup.Script.lines`, for the names in the order
of their first declarations with the escaped initializers of their last ones, and for the compiled
handlers in order; an initializer is what its line says, and nothing but initializers is escaped.
Every declared name is initialized once and shown once. -/
theorem script_line_by_line (src : Bytes) :
    let t := SourceTree.ofSource src
    let declared := (Layout.ofSource src).filterMap Row.state?
    let names := (declared.map StateLine.name).eraseDups
    let wirings := (elements t.states t.nodes).2.wirings
    let script? := Script.text? t.states.declarations wirings
    let ls := Script.lines (names.map fun x =>
      (x, Script.escape ((StateLine.lastInitializer? x declared).getD []))) wirings
    compile src = opening ++ (renderAll false (elements t.states t.nodes).1).text ++
      scriptMarkup script? ++ closing ∧
    (script?.isSome ↔ declared ≠ [] ∨ ∃ h ∈ t.handlers, h.isCompiled) ∧
    t.states.names = names ∧
    wirings.map (fun w => (w.event, w.statement)) =
      (t.handlers.filter Handler.isCompiled).map (fun h => (h.event, h.statement)) ∧
    (∀ y ∈ Layout.ofSource src, ∀ d : StateLine, y.state? = some d →
      ∃ gap before after : Bytes, y.line.text =
          utf8 "state" ++ gap ++ d.name ++ before ++ utf8 "=" ++ after ++ d.initializer ∧
        gap ≠ [] ∧ (gap ++ before ++ after).all isPatternBlank) ∧
    ∀ s : Bytes, script? = some s →
      List.splitOn (octet '\n') s = ls ++ [[]] ∧
      s = Script.source (t.states.declarations.map fun d =>
        { d with initializer := Script.escape d.initializer }) wirings ∧
      ∀ x ∈ names, ls.countP (fun l => (initStart x).isPrefixOf l) = 1 ∧
        ls.count (refreshLine x) = 1 := by
  intro t declared names wirings script? ls
  have hcompile : compile src = opening ++
      (renderAll false (elements t.states t.nodes).1).text ++
      (renderAll false (script t.states wirings)).text ++ closing := compile_eq src
  have hls : ls = Script.lines (escapedStates src) wirings :=
    congrArg (fun states => Script.lines states wirings) (escapedStates_eq src).symm
  refine ⟨?_, isSome_script_iff src, SourceTree.names_states src, ?_, ?_, ?_⟩
  · rw [hcompile, text_renderAll_script]
  · rw [← Layout.flatMap_handlers_elements]
    exact (congrArg _ (wirings_elements t.states t.nodes)).trans (Wiring.map_ofNodes t.nodes)
  · intro y _ d hd
    exact (StateLine.eq_of_parse? (Row.parse?_of_state? hd)).1
  · intro s hs
    have hlines : s = Bytes.unlines (Script.lines (escapedStates src) wirings) :=
      script_eq_unlines hs
    rw [hls]
    refine ⟨?_, ?_, fun x hx => ?_⟩
    · rw [hlines]
      refine Bytes.splitOn_unlines (feed_notMem_lines isBinding_of_mem_escapedStates ?_
        fun _ => Wiring.ofBody_of_mem)
      exact List.forall_mem_map.mpr fun d hd =>
        feed_notMem_escape (SourceTree.feed_notMem_initializer hd)
    · have hnames : ∀ d ∈ t.states.declarations.map (fun d =>
          { d with initializer := Script.escape d.initializer }), isBinding d.name :=
        List.forall_mem_map.mpr fun _ => SourceTree.isBinding_of_mem_declarations
      rw [hlines, source_eq_unlines hnames, List.map_map]
      rfl
    · -- A name is listed once, and so it is on one line of each kind.
      have hnames : (escapedStates src).map Prod.fst = names :=
        (map_fst_escapedStates src).trans (SourceTree.names_states src)
      have hcount : ((escapedStates src).map Prod.fst).count x = 1 := by
        rw [hnames]
        refine List.count_eq_one_of_mem ?_ hx
        rw [← hnames, map_fst_escapedStates]
        exact (SourceTree.ofSource src).states.distinct
      have hxbinding : isBinding x := by
        rw [← hnames] at hx
        obtain ⟨y, hy, rfl⟩ := List.mem_map.mp hx
        exact isBinding_of_mem_escapedStates y hy
      rw [countP_initStart isBinding_of_mem_escapedStates hxbinding,
        count_refreshLine isBinding_of_mem_escapedStates hxbinding]
      exact ⟨hcount, hcount⟩

/-- A name declared twice, with a second initializer that would end the script. -/
theorem script_line_by_line_again :
    let t := SourceTree.ofSource (utf8 "state a = 1\nstate b = 2\nstate a = \"</\"")
    ∃ s : Bytes, Script.text? t.states.declarations (elements t.states t.nodes).2.wirings = some s ∧
      List.splitOn (octet '\n') s = Script.lines
        [(utf8 "a", utf8 "\"<\\/\""), (utf8 "b", utf8 "2")] [] ++ [[]] := by
  intro t
  have hdeclared : (Layout.ofSource (utf8 "state a = 1\nstate b = 2\nstate a = \"</\"")).filterMap
      Row.state? = [⟨utf8 "a", utf8 "1"⟩, ⟨utf8 "b", utf8 "2"⟩, ⟨utf8 "a", utf8 "\"</\""⟩] := by
    decide +kernel
  have hwirings : (elements t.states t.nodes).2.wirings = [] := by decide +kernel
  obtain ⟨-, hiff, -, -, -, hlines⟩ :=
    script_line_by_line (utf8 "state a = 1\nstate b = 2\nstate a = \"</\"")
  obtain ⟨s, hs⟩ := Option.isSome_iff_exists.mp (hiff.mpr (Or.inl (by simp [hdeclared])))
  have hsplit := (hlines s hs).1
  rw [hdeclared, hwirings] at hsplit
  exact ⟨s, hs, hsplit⟩

end Document

end LiveMarkup
