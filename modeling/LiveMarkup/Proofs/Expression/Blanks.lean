import LiveMarkup.Proofs.Expression.Tokens
import LiveMarkup.Proofs.Text.Characters

/-!
# White space around an expression

White space separates tokens and leaves none, so an expression with white space around it is read
like the expression without (`LiveMarkup.Expression.parse?_of_parse?_trim`).

In front of an expression this is one step of the lexer for each character. Behind it, the last
token must not go on into the white space. No scanner takes a blank into a token unless it is inside
a string (`LiveMarkup.Expression.scan?_append_blanks`); only a comment at the end of the text may
swallow some of the white space, and then what is left is white space still.

A step of the lexer comes with a proof that it takes a character;
`LiveMarkup.Expression.scan?` is the step without it.
-/

namespace LiveMarkup

namespace Expression

/-- Whether characters are all white space. -/
def isBlanks (ws : List Char) : Bool := ws.all isBlank

/-! ### Blanks are in no class of the lexer -/

/-- A class of characters has no white space in it. -/
def AvoidsBlanks (p : Char → Bool) : Prop := ∀ c, isBlank c → p c = false

/-- The white-space characters. -/
def blanks : List Char :=
  blankIntervals.flatMap fun r => (List.range' r.1 (r.2 + 1 - r.1)).map Char.ofNat

theorem mem_blanks {c : Char} (h : isBlank c) : c ∈ blanks := by
  obtain ⟨r, hr, hc⟩ := List.any_eq_true.mp h
  rw [Bool.and_eq_true, decide_eq_true_eq, decide_eq_true_eq] at hc
  refine List.mem_flatMap.mpr ⟨r, hr, List.mem_map.mpr ⟨c.toNat, ?_, Char.ofNat_toNat c⟩⟩
  rw [List.mem_range'_1]
  omega

theorem avoidsBlanks_of_decide {p : Char → Bool} (h : blanks.all fun c => !p c) :
    AvoidsBlanks p := fun c hc => by
  simpa using List.all_eq_true.mp h c (mem_blanks hc)

theorem avoidsBlanks_isWordChar : AvoidsBlanks isWordChar :=
  avoidsBlanks_of_decide (by decide +kernel)

theorem avoidsBlanks_isDigit : AvoidsBlanks Char.isDigit := avoidsBlanks_of_decide (by decide)

/-! ### Scanners -/

/-- A span ends where something begins that cannot go on with it. -/
theorem spanWhile_append {p : Char → Bool} {ds : List Char} (h : ds.head?.any p = false)
    (cs : List Char) : spanWhile p (cs ++ ds) = ((spanWhile p cs).1, (spanWhile p cs).2 ++ ds) := by
  induction cs with
  | nil =>
    cases ds with
    | nil => rfl
    | cons d ds => exact if_neg (by simpa using h)
  | cons c cs ih =>
    rw [List.cons_append, spanWhile, spanWhile, ih]
    split <;> rfl

section Blanks

variable {ws : List Char} (hws : isBlanks ws)

include hws

theorem head?_of_isBlanks {p : Char → Bool} (hp : AvoidsBlanks p) : ws.head?.any p = false := by
  cases ws with
  | nil => rfl
  | cons c ws =>
    rw [isBlanks, List.all_cons, Bool.and_eq_true] at hws
    exact hp c hws.1

theorem skipOne_append_blanks {options : List Char} (hp : AvoidsBlanks options.contains)
    (cs : List Char) :
    skipOne options (cs ++ ws) = ((skipOne options cs).1, (skipOne options cs).2 ++ ws) := by
  cases cs with
  | nil =>
    have hhead := head?_of_isBlanks hws hp
    cases ws with
    | nil => rfl
    | cons c ws => exact if_neg (by simpa using hhead)
  | cons c cs =>
    rw [List.cons_append, skipOne, skipOne]
    split <;> rfl

theorem numeralBase_append_blanks (c : Char) (cs : List Char) : numeralBase c (cs ++ ws) =
    ((numeralBase c cs).1, (numeralBase c cs).2.1, (numeralBase c cs).2.2 ++ ws) := by
  by_cases hc : c = '0'
  · subst hc
    cases cs with
    | nil =>
      have hmark := head?_of_isBlanks hws
        (avoidsBlanks_of_decide (p := ['x', 'X', 'o', 'O', 'b', 'B'].contains) (by decide))
      cases ws with
      | nil => rfl
      | cons d ws =>
        obtain ⟨hx, hX, ho, hO, hb, hB⟩ :
            d ≠ 'x' ∧ d ≠ 'X' ∧ d ≠ 'o' ∧ d ≠ 'O' ∧ d ≠ 'b' ∧ d ≠ 'B' := by simpa using hmark
        rw [List.nil_append, numeralBase, if_neg (not_or.mpr ⟨hx, hX⟩),
          if_neg (not_or.mpr ⟨ho, hO⟩), if_neg (not_or.mpr ⟨hb, hB⟩)]
        rfl
    | cons d cs =>
      rw [List.cons_append, numeralBase, numeralBase]
      split_ifs <;> rfl
  · have hother (cs : List Char) : numeralBase c cs = (isDecimalChar, [c], cs) :=
      numeralBase.eq_2 c cs fun _ _ h _ => hc h
    rw [hother, hother]

omit hws in
theorem avoidsBlanks_numeralBase (c : Char) (cs : List Char) :
    AvoidsBlanks (numeralBase c cs).1 := by
  have hdecimal : AvoidsBlanks isDecimalChar := avoidsBlanks_of_decide (by decide)
  have hhex : AvoidsBlanks fun e => (hexValue? (asciiOctet e)).isSome || e == '_' :=
    avoidsBlanks_of_decide (by decide)
  have hoctal : AvoidsBlanks fun e => (Escape.octalValue? (asciiOctet e)).isSome || e == '_' :=
    avoidsBlanks_of_decide (by decide)
  have hbinary : AvoidsBlanks fun e => e == '0' || e == '1' || e == '_' :=
    avoidsBlanks_of_decide (by decide)
  rw [numeralBase.eq_def]
  split
  · split_ifs
    · exact hhex
    · exact hoctal
    · exact hbinary
    · exact hdecimal
  · exact hdecimal

theorem numeralFraction_append_blanks {digit : Char → Bool} (hdigit : AvoidsBlanks digit)
    (cs : List Char) : numeralFraction digit (cs ++ ws) =
      ((numeralFraction digit cs).1, (numeralFraction digit cs).2 ++ ws) := by
  cases cs with
  | nil =>
    have hpoint := head?_of_isBlanks hws (avoidsBlanks_of_decide (p := (· == '.')) (by decide))
    cases ws with
    | nil => rfl
    | cons c ws => exact if_neg (by simpa using hpoint)
  | cons c cs =>
    rw [List.cons_append, numeralFraction, numeralFraction,
      spanWhile_append (head?_of_isBlanks hws hdigit)]
    split <;> rfl

theorem numeralExponent_append_blanks {digit : Char → Bool} (hdigit : AvoidsBlanks digit)
    (cs : List Char) : numeralExponent digit (cs ++ ws) =
      ((numeralExponent digit cs).1, (numeralExponent digit cs).2 ++ ws) := by
  cases cs with
  | nil =>
    have hmark := head?_of_isBlanks hws
      (avoidsBlanks_of_decide (p := ['e', 'E'].contains) (by decide))
    cases ws with
    | nil => rfl
    | cons c ws => exact if_neg (by simpa using hmark)
  | cons c cs =>
    have hsign : AvoidsBlanks ['+', '-'].contains := avoidsBlanks_of_decide (by decide)
    rw [List.cons_append, numeralExponent, numeralExponent, skipOne_append_blanks hws hsign]
    dsimp only
    rw [spanWhile_append (head?_of_isBlanks hws hdigit)]
    split <;> rfl

/-- **A numeral does not go on into white space.** -/
theorem numeral?_append_blanks (c : Char) (cs : List Char) :
    numeral? c (cs ++ ws) = (numeral? c cs).map fun y => (y.1, y.2 ++ ws) := by
  have hdigit := avoidsBlanks_numeralBase c cs
  -- What is seen behind the digits is the same: two points are not completed by a blank, and a
  -- blank is no word character.
  have hpoints (r : List Char) : (r ++ ws).take 2 = ['.', '.'] ↔ r.take 2 = ['.', '.'] := by
    have hpoint := head?_of_isBlanks hws (avoidsBlanks_of_decide (p := (· == '.')) (by decide))
    cases ws with
    | nil => rw [List.append_nil]
    | cons w ws =>
      have hw : w ≠ '.' := by simpa using hpoint
      cases r with
      | nil => simp [hw]
      | cons a r => cases r <;> simp [hw]
  have hword (r : List Char) : (r ++ ws).head?.any isWordChar = r.head?.any isWordChar := by
    cases r with
    | nil => exact head?_of_isBlanks hws avoidsBlanks_isWordChar
    | cons a r => rfl
  rw [numeral?, numeral?, numeralBase_append_blanks hws]
  dsimp only
  rw [spanWhile_append (head?_of_isBlanks hws hdigit)]
  dsimp only
  rw [numeralFraction_append_blanks hws hdigit]
  dsimp only
  rw [numeralExponent_append_blanks hws hdigit]
  dsimp only
  rw [hword]
  by_cases h : (spanWhile (numeralBase c cs).1 (numeralBase c cs).2.2).2.take 2 = ['.', '.']
  · rw [if_pos h, if_pos ((hpoints _).mpr h)]
    rfl
  · rw [if_neg h, if_neg (mt (hpoints _).mp h)]
    split <;> rfl

/-- What a comment leaves of white space behind it is white space. -/
theorem lineComment_append_blanks (cs : List Char) :
    ∃ ws', isBlanks ws' ∧ lineComment (cs ++ ws) = lineComment cs ++ ws' := by
  induction cs with
  | nil =>
    have hsuffix (cs : List Char) : lineComment cs <:+ cs := by
      induction cs with
      | nil => exact List.suffix_refl []
      | cons c cs ih =>
        rw [lineComment]
        split
        · exact List.suffix_cons c cs
        · exact ih.trans (List.suffix_cons c cs)
    -- The comment is still open where the white space begins, and swallows it up to a line feed.
    refine ⟨lineComment ws, ?_, rfl⟩
    exact List.all_eq_true.mpr fun c hc => List.all_eq_true.mp hws c ((hsuffix ws).subset hc)
  | cons c cs ih =>
    rw [List.cons_append, lineComment, lineComment]
    split
    · exact ⟨ws, hws, rfl⟩
    · exact ih

end Blanks

/-! ### Scanners that know their end -/

section Append

variable {cs r : List Char} (t : List Char)

theorem hexChars?_append {n v w : Nat} (h : hexChars? n v cs = some (w, r)) :
    hexChars? n v (cs ++ t) = some (w, r ++ t) := by
  induction n generalizing v cs with
  | zero =>
    obtain ⟨rfl, rfl⟩ : v = w ∧ cs = r := by simpa [hexChars?] using h
    rfl
  | succ n ih =>
    cases cs with
    | nil => exact absurd h (by simp [hexChars?])
    | cons c cs =>
      rw [hexChars?] at h
      rw [List.cons_append, hexChars?]
      cases hd : hexValue? (asciiOctet c) with
      | none => exact absurd h (by simp [hd])
      | some d =>
        rw [hd] at h
        exact ih h

theorem octalChars?_append {n v w : Nat} (h : octalChars? n v cs = some (w, r)) :
    octalChars? n v (cs ++ t) = some (w, r ++ t) := by
  induction n generalizing v cs with
  | zero =>
    obtain ⟨rfl, rfl⟩ : v = w ∧ cs = r := by simpa [octalChars?] using h
    rfl
  | succ n ih =>
    cases cs with
    | nil => exact absurd h (by simp [octalChars?])
    | cons c cs =>
      rw [octalChars?] at h
      rw [List.cons_append, octalChars?]
      cases hd : Escape.octalValue? (asciiOctet c) with
      | none => exact absurd h (by simp [hd])
      | some d =>
        rw [hd] at h
        exact ih h

theorem stringEscape?_append {q : Char} {o : Bytes} (h : stringEscape? q cs = some (o, r)) :
    stringEscape? q (cs ++ t) = some (o, r ++ t) := by
  cases cs with
  | nil => exact absurd h (by simp [stringEscape?])
  | cons c cs =>
    rw [stringEscape?] at h
    rw [List.cons_append, stringEscape?]
    cases hcontrol : Escape.control? (asciiOctet c) with
    | some b =>
      rw [hcontrol] at h
      obtain ⟨rfl, rfl⟩ : [b] = o ∧ cs = r := by simpa using h
      rfl
    | none =>
      rw [hcontrol] at h
      dsimp only at h ⊢
      cases hwidth : Escape.hexWidth? (asciiOctet c) with
      | some n =>
        rw [hwidth] at h
        dsimp only at h ⊢
        cases hhex : hexChars? n 0 cs with
        | none => exact absurd h (by simp [hhex])
        | some y =>
          rw [hhex] at h
          rw [hexChars?_append t hhex]
          obtain ⟨o', ho, heq⟩ := Option.map_eq_some_iff.mp h
          obtain ⟨rfl, rfl⟩ : o' = o ∧ y.2 = r := by simpa using heq
          dsimp only
          rw [ho]
          rfl
      | none =>
        rw [hwidth] at h
        dsimp only at h ⊢
        split at h
        · rename_i hself
          obtain ⟨rfl, rfl⟩ : Utf8.encode c = o ∧ cs = r := by simpa using h
          rw [if_pos hself]
        · rename_i hself
          rw [if_neg hself]
          cases hoctal : octalChars? 3 0 (c :: cs) with
          | none => exact absurd h (by simp [hoctal])
          | some y =>
            rw [hoctal] at h
            rw [← List.cons_append, octalChars?_append t hoctal]
            dsimp only at h ⊢
            split at h
            · rename_i hlt
              obtain ⟨rfl, rfl⟩ : Utf8.encode (Char.ofNat y.1) = o ∧ y.2 = r := by simpa using h
              rw [if_pos hlt]
            · exact absurd h (by simp)

theorem stringBody?_append {q : Char} {o : Bytes} (h : stringBody? q cs = some (o, r)) :
    stringBody? q (cs ++ t) = some (o, r ++ t) := by
  fun_induction stringBody? q cs generalizing o with
  | case1 => cases h
  | case2 cs =>
    obtain ⟨rfl, rfl⟩ : [] = o ∧ cs = r := by simpa using h
    rw [List.cons_append, stringBody?, if_pos rfl]
  | case3 => cases h
  | case4 => cases h
  | case5 cs o' u hescape hquote hfeed ih =>
    obtain ⟨y, hy, heq⟩ := Option.map_eq_some_iff.mp h
    obtain ⟨rfl, rfl⟩ : o' ++ y.1 = o ∧ y.2 = r := by simpa using heq
    rw [List.cons_append, stringBody?_escape (Ne.symm hquote) (stringEscape?_append t hescape),
      ih hy]
    rfl
  | case6 c cs hquote hfeed hslash ih =>
    obtain ⟨y, hy, heq⟩ := Option.map_eq_some_iff.mp h
    obtain ⟨rfl, rfl⟩ : Utf8.encode (if c = '\r' then '\n' else c) ++ y.1 = o ∧ y.2 = r := by
      simpa using heq
    rw [List.cons_append, stringBody?, if_neg hquote, if_neg hfeed, if_neg hslash, ih hy]
    rfl

theorem rawBody?_append {q : Char} {o : List Char} (h : rawBody? q cs = some (o, r)) :
    rawBody? q (cs ++ t) = some (o, r ++ t) := by
  induction cs generalizing o with
  | nil => cases h
  | cons c cs ih =>
    rw [rawBody?] at h
    rw [List.cons_append, rawBody?]
    split at h
    · rename_i hquote
      obtain ⟨rfl, rfl⟩ : [] = o ∧ cs = r := by simpa using h
      rw [if_pos hquote]
    · rename_i hquote
      obtain ⟨y, hy, heq⟩ := Option.map_eq_some_iff.mp h
      obtain ⟨rfl, rfl⟩ : c :: y.1 = o ∧ y.2 = r := by simpa using heq
      rw [if_neg hquote, ih hy]
      rfl

theorem blockComment?_append (h : blockComment? cs = some r) :
    blockComment? (cs ++ t) = some (r ++ t) := by
  fun_induction blockComment? cs with
  | case1 => cases h
  | case2 => cases h
  | case3 c d cs hend =>
    obtain rfl := Option.some.inj h
    rw [List.cons_append, List.cons_append, blockComment?, if_pos hend]
  | case4 c d cs hend ih =>
    rw [List.cons_append, List.cons_append, blockComment?, if_neg hend]
    exact ih h

end Append

/-! ### Steps -/

/-- What follows a slash: a comment, or nothing that belongs to it. -/
def scanSlash? : List Char → Option (Option Token × List Char)
  | '/' :: r => some (none, lineComment r)
  | '*' :: r => (blockComment? r).map fun u => (none, u)
  | cs => some (some (.mark .divide), cs)

/-- One step of the lexer: what stands at the start of the characters, and what follows it. -/
def scan? (c : Char) (cs : List Char) : Option (Option Token × List Char) :=
  if isBlank c then some (none, cs)
  else if c = '"' ∨ c = '\'' then
    (stringBody? c cs).map fun y => (some (.string y.1), y.2)
  else if c.toNat = 0x60 then
    (rawBody? c cs).map fun y => (some (.string (spelling y.1)), y.2)
  else if c.isDigit ∨ (c = '.' ∧ cs.head?.any Char.isDigit) then
    (numeral? c cs).map fun y => (some (.number (spelling y.1)), y.2)
  else if c = '/' then scanSlash? cs
  else
    match soloMark? c with
    | some m => some (some (.mark m), cs)
    | none =>
      match extensions? c with
      | some options =>
        some (some (.mark (pairMark c (skipOne options cs).1)), (skipOne options cs).2)
      | none =>
        if isWordChar c then
          some (some (wordToken (c :: (spanWhile isWordChar cs).1)), (spanWhile isWordChar cs).2)
        else none

theorem map_step? (c : Char) (cs : List Char) :
    (step? c cs).map (fun s => (s.token, s.rest)) = scan? c cs := by
  rw [step?.eq_def, scan?]
  split
  · rfl
  split
  · split <;> simp [*]
  split
  · split <;> simp [*]
  split
  · split <;> simp [*]
  split
  · split
    · rfl
    · split <;> simp [scanSlash?, *]
    · rename_i hline hblock
      rw [scanSlash?.eq_def]
      split
      · exact absurd rfl (hline _)
      · exact absurd rfl (hblock _)
      · rfl
  · cases soloMark? c with
    | some m => rfl
    | none =>
      cases extensions? c with
      | some options => rfl
      | none =>
        dsimp only
        split <;> rfl

/-- The characters that extend a mark are no blanks. -/
theorem avoidsBlanks_extensions {c : Char} {options : List Char}
    (h : extensions? c = some options) : AvoidsBlanks options.contains := by
  rw [extensions?.eq_def] at h
  split at h
  all_goals cases h
  all_goals exact avoidsBlanks_of_decide (by decide)

section AppendBlanks

variable {ws : List Char} (hws : isBlanks ws)

include hws

theorem scanSlash?_append_blanks {cs r : List Char} {o : Option Token}
    (h : scanSlash? cs = some (o, r)) :
    ∃ ws', isBlanks ws' ∧ scanSlash? (cs ++ ws) = some (o, r ++ ws') := by
  have hdivide {cs : List Char} (hcs : cs.head?.any ['/', '*'].contains = false) :
      scanSlash? cs = some (some (.mark .divide), cs) := by
    rw [scanSlash?.eq_def]
    split
    · exact absurd hcs (by simp)
    · exact absurd hcs (by simp)
    · rfl
  by_cases hcs : cs.head?.any ['/', '*'].contains
  · rw [scanSlash?.eq_def] at h
    split at h
    · rename_i cs
      obtain ⟨rfl, rfl⟩ : none = o ∧ lineComment cs = r := by simpa using h
      obtain ⟨ws', hws', hcomment⟩ := lineComment_append_blanks hws cs
      exact ⟨ws', hws', congrArg (fun u => some (none, u)) hcomment⟩
    · rename_i cs
      obtain ⟨u, hu, heq⟩ := Option.map_eq_some_iff.mp h
      obtain ⟨rfl, rfl⟩ : none = o ∧ u = r := by simpa using heq
      exact ⟨ws, hws, congrArg (Option.map fun u => (none, u)) (blockComment?_append ws hu)⟩
    · rename_i hline hblock
      cases cs with
      | nil => exact absurd hcs (by simp)
      | cons d cs =>
        have hd : d = '/' ∨ d = '*' := by simpa using hcs
        rcases hd with rfl | rfl
        · exact absurd rfl (hline cs)
        · exact absurd rfl (hblock cs)
  · rw [hdivide (by simpa using hcs)] at h
    obtain ⟨rfl, rfl⟩ : some (.mark .divide) = o ∧ cs = r := by simpa using h
    refine ⟨ws, hws, hdivide ?_⟩
    cases cs with
    | nil => exact head?_of_isBlanks hws (avoidsBlanks_of_decide (by decide))
    | cons d cs => simpa using hcs

/-- **A step does not go on into white space**, unless it is a comment. -/
theorem scan?_append_blanks {c : Char} {cs r : List Char} {o : Option Token}
    (h : scan? c cs = some (o, r)) :
    ∃ ws', isBlanks ws' ∧ scan? c (cs ++ ws) = some (o, r ++ ws') := by
  -- A point starts a numeral if a digit is behind it, and no blank is one.
  have hhead : (cs ++ ws).head?.any Char.isDigit = cs.head?.any Char.isDigit := by
    cases cs with
    | nil => exact head?_of_isBlanks hws avoidsBlanks_isDigit
    | cons d cs => rfl
  rw [scan?] at h ⊢
  rw [hhead]
  by_cases hblank : isBlank c
  · rw [if_pos hblank] at h ⊢
    obtain ⟨rfl, rfl⟩ : none = o ∧ cs = r := by simpa using h
    exact ⟨ws, hws, rfl⟩
  rw [if_neg hblank] at h ⊢
  by_cases hquote : c = '"' ∨ c = '\''
  · rw [if_pos hquote] at h ⊢
    obtain ⟨y, hy, heq⟩ := Option.map_eq_some_iff.mp h
    obtain ⟨rfl, rfl⟩ : some (.string y.1) = o ∧ y.2 = r := by simpa using heq
    exact ⟨ws, hws, by rw [stringBody?_append ws hy]; rfl⟩
  rw [if_neg hquote] at h ⊢
  by_cases hraw : c.toNat = 0x60
  · rw [if_pos hraw] at h ⊢
    obtain ⟨y, hy, heq⟩ := Option.map_eq_some_iff.mp h
    obtain ⟨rfl, rfl⟩ : some (.string (spelling y.1)) = o ∧ y.2 = r := by simpa using heq
    exact ⟨ws, hws, by rw [rawBody?_append ws hy]; rfl⟩
  rw [if_neg hraw] at h ⊢
  by_cases hdigit : c.isDigit ∨ (c = '.' ∧ cs.head?.any Char.isDigit)
  · rw [if_pos hdigit] at h ⊢
    obtain ⟨y, hy, heq⟩ := Option.map_eq_some_iff.mp h
    obtain ⟨rfl, rfl⟩ : some (.number (spelling y.1)) = o ∧ y.2 = r := by simpa using heq
    exact ⟨ws, hws, by rw [numeral?_append_blanks hws, hy]; rfl⟩
  rw [if_neg hdigit] at h ⊢
  by_cases hslash : c = '/'
  · rw [if_pos hslash] at h ⊢
    -- Only behind a slash other white space may be left than was added.
    exact scanSlash?_append_blanks hws h
  rw [if_neg hslash] at h ⊢
  cases hsolo : soloMark? c with
  | some m =>
    rw [hsolo] at h
    obtain ⟨rfl, rfl⟩ : some (.mark m) = o ∧ cs = r := by simpa using h
    exact ⟨ws, hws, rfl⟩
  | none =>
    rw [hsolo] at h
    dsimp only at h ⊢
    cases hextensions : extensions? c with
    | some options =>
      rw [hextensions] at h
      dsimp only at h ⊢
      rw [skipOne_append_blanks hws (avoidsBlanks_extensions hextensions)]
      obtain ⟨rfl, rfl⟩ : some (.mark (pairMark c (skipOne options cs).1)) = o ∧
        (skipOne options cs).2 = r := by simpa using h
      exact ⟨ws, hws, rfl⟩
    | none =>
      rw [hextensions] at h
      dsimp only at h ⊢
      rw [spanWhile_append (head?_of_isBlanks hws avoidsBlanks_isWordChar)]
      by_cases hword : isWordChar c
      · rw [if_pos hword] at h ⊢
        obtain ⟨rfl, rfl⟩ : some (wordToken (c :: (spanWhile isWordChar cs).1)) = o ∧
          (spanWhile isWordChar cs).2 = r := by simpa using h
        exact ⟨ws, hws, rfl⟩
      · rw [if_neg hword] at h
        cases h

end AppendBlanks

/-! ### Texts -/

theorem charTokens?_blanks_append {ws : List Char} (hws : isBlanks ws) (cs : List Char) :
    charTokens? (ws ++ cs) = charTokens? cs := by
  induction ws with
  | nil => rfl
  | cons c ws ih =>
    rw [isBlanks, List.all_cons, Bool.and_eq_true] at hws
    have hstep : (step? c (ws ++ cs)).map (fun s => (s.token, s.rest)) = some (none, ws ++ cs) := by
      rw [map_step?, scan?, if_pos hws.1]
    rw [List.cons_append, charTokens?_of_step? hstep, ih hws.2, Option.toList_none]
    exact Option.map_id'

/-- **White space behind an expression** leaves no token. -/
theorem charTokens?_append_blanks {cs : List Char} {ts : List Token} (h : charTokens? cs = some ts)
    {ws : List Char} (hws : isBlanks ws) : charTokens? (cs ++ ws) = some ts := by
  -- The induction is on the length, and for all white space, since a comment may leave less of it.
  induction hlen : cs.length using Nat.strongRecOn generalizing cs ts ws with
  | _ n ih =>
    cases cs with
    | nil =>
      have hblanks := charTokens?_blanks_append hws []
      rw [List.append_nil] at hblanks
      rw [List.nil_append, hblanks, h]
    | cons c cs =>
      cases hstep : step? c cs with
      | none =>
        rw [charTokens?, hstep] at h
        cases h
      | some s =>
        have hscan : scan? c cs = some (s.token, s.rest) := by
          rw [← map_step?, hstep, Option.map_some]
        rw [charTokens?_of_step? ((map_step? c cs).trans hscan)] at h
        obtain ⟨us, hus, rfl⟩ := Option.map_eq_some_iff.mp h
        obtain ⟨ws', hws', happend⟩ := scan?_append_blanks hws hscan
        rw [List.cons_append, charTokens?_of_step? ((map_step? c _).trans happend),
          ih s.rest.length (hlen ▸ s.shorter) hus hws' rfl, Option.map_some]

/-- **White space around an expression does not change its tokens.** -/
theorem tokens?_of_trim {s : Bytes} {ts : List Token} (h : tokens? s.trim = some ts) :
    tokens? s = some ts := by
  obtain ⟨before, after, hchars, -, hbefore, hafter⟩ := Bytes.chars_trim s
  have hblanks {ws : List (Option Char)} (hws : ∀ c ∈ ws, Bytes.isBlank? c) :
      isBlanks (ws.map fun c => c.getD Utf8.replacement) := by
    refine List.all_eq_true.mpr fun c hc => ?_
    obtain ⟨o, ho, rfl⟩ := List.mem_map.mp hc
    cases o with
    | none => exact absurd (hws none ho) (by simp [Bytes.isBlank?])
    | some c => simpa [Bytes.isBlank?] using hws _ ho
  rw [tokens?, Utf8.lossy] at h ⊢
  rw [hchars, List.map_append, List.map_append, List.append_assoc,
    charTokens?_blanks_append (hblanks hbefore)]
  exact charTokens?_append_blanks h (hblanks hafter)

/-- **An expression with white space around it** is read like the expression. -/
theorem parse?_of_parse?_trim {s : Bytes} {e : Term} (h : parse? s.trim = some e) :
    parse? s = some e := by
  rw [parse?] at h
  split at h
  · cases h
  · rename_i ts hts
    rw [parse?, tokens?_of_trim hts]
    exact h

end Expression

end LiveMarkup
