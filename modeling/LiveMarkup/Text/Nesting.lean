import LiveMarkup.Text.Bytes

/-!
# Quotes and brackets

Attribute lists, style blocks and handler bodies nest quotes, parentheses and braces. One automaton
reads a fragment octet by octet and knows at each place whether it is inside a quotation and how
many brackets are open; splitting, cutting and the search for a closing parenthesis all run it.
-/

namespace LiveMarkup

/-- What is open at some place of a fragment. -/
structure Nesting where
  /-- Opening less closing parentheses. -/
  parens : Int := 0
  /-- Opening less closing braces. -/
  braces : Int := 0
  /-- The quote that has to close, inside a quotation. -/
  quote : Option UInt8 := none
  /-- Inside a quotation, directly after a backslash. -/
  escaped : Bool := false
  /-- Whether some closing bracket came without its opening one. -/
  broken : Bool := false
  deriving DecidableEq, Repr

namespace Nesting

/-- The three quotes that shield brackets and separators. -/
def isQuote (b : UInt8) : Bool := b == octet '"' || b == octet '\'' || b == 0x60

/-- Records a closing bracket that has no opening one. -/
def noteBroken (n : Nesting) : Nesting :=
  if n.parens < 0 || n.braces < 0 then { n with broken := true } else n

/-- The nesting after one more octet. -/
def step (n : Nesting) (b : UInt8) : Nesting :=
  match n.quote with
  | some q =>
    if n.escaped then { n with escaped := false }
    else if b = octet '\\' then { n with escaped := true }
    else if b = q then { n with quote := none }
    else n
  | none =>
    if isQuote b then noteBroken { n with quote := some b }
    else if b = octet '(' then noteBroken { n with parens := n.parens + 1 }
    else if b = octet ')' then noteBroken { n with parens := n.parens - 1 }
    else if b = 0x7b then noteBroken { n with braces := n.braces + 1 }
    else if b = 0x7d then noteBroken { n with braces := n.braces - 1 }
    else noteBroken n

/-- Outside quotations, with as many closing as opening brackets of each kind. -/
def isTop (n : Nesting) : Bool := n.quote.isNone && n.parens == 0 && n.braces == 0

/-- Outside quotations and with all parentheses closed, whatever the braces. -/
def isParenTop (n : Nesting) : Bool := n.quote.isNone && n.parens == 0

/-- Whether all quotations and brackets of a fragment are closed, each after its opening. -/
def isBalanced (s : Bytes) : Bool :=
  let n := s.foldl step {}
  n.isTop && !n.broken

/-- The parts of a fragment between the separators at top level, starting from nesting `n`. -/
def splitFrom (sep : UInt8) (n : Nesting) : Bytes → List Bytes
  | [] => [[]]
  | b :: s =>
    if b = sep ∧ n.isTop then [] :: splitFrom sep n s
    else (splitFrom sep (n.step b) s).modifyHead (b :: ·)

/-- The parts of a fragment between the separators outside quotations and brackets. -/
def split (sep : UInt8) (s : Bytes) : List Bytes := splitFrom sep {} s

/-- What stands before and after the first separator at top level, starting from nesting `n`. -/
def cutFrom? (sep : UInt8) (n : Nesting) : Bytes → Option (Bytes × Bytes)
  | [] => none
  | b :: s =>
    if b = sep ∧ n.isTop then some ([], s)
    else (cutFrom? sep (n.step b) s).map fun (before, after) => (b :: before, after)

/-- What stands before and after the first separator outside quotations and brackets. -/
def cut? (sep : UInt8) (s : Bytes) : Option (Bytes × Bytes) := cutFrom? sep {} s

/-- Everything before the octet that leaves a fragment outside quotations with its parentheses
closed, and everything after that octet, starting from nesting `n`. -/
def closeFrom? (n : Nesting) : Bytes → Option (Bytes × Bytes)
  | [] => none
  | b :: s =>
    if (n.step b).isParenTop then some ([], s)
    else (closeFrom? (n.step b) s).map fun (before, after) => (b :: before, after)

/-- Splits a fragment that starts with an opening parenthesis at the closing one: everything before
it, the opening parenthesis included, and everything after it. -/
def close? (s : Bytes) : Option (Bytes × Bytes) := closeFrom? {} s

end Nesting

end LiveMarkup
