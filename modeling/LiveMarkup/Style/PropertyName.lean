import LiveMarkup.Text.LetterCase
import LiveMarkup.Text.Utf8

/-!
# Names of style properties

A property may be written in snake case, camel case or kebab case; it is stored in kebab case.
`LiveMarkup.Style.propertyName` splits a name into words and joins them by dashes, in small letters.
-/

namespace LiveMarkup

namespace Style

/-- Whether an octet stands between two words. -/
def isWordMark (b : UInt8) : Bool := b == octet '_' || b == octet '-'

/-- The parts between word marks that are not empty, given the part already read. -/
def partsFrom (part : Bytes) : Bytes → List Bytes
  | [] => if part.isEmpty then [] else [part]
  | b :: r =>
    if isWordMark b then
      if part.isEmpty then partsFrom [] r else part :: partsFrom [] r
    else partsFrom (part ++ [b]) r

/-- The parts of a name between its word marks. -/
def parts (name : Bytes) : List Bytes := partsFrom [] name

/-- The classes of characters that make up words. -/
inductive LetterClass
  | lower | upper | digit | other
  deriving DecidableEq, Repr

/-- The class of a character. -/
def letterClass (c : Char) : LetterClass :=
  if isLowerCase c then .lower
  else if isUpperCase c then .upper
  else if isDecimalDigit c then .digit
  else .other

/-- A character in front of the runs, as part of the first one if the classes agree. -/
def consRun (c : Char) : List (List Char) → List (List Char)
  | [] => [[c]]
  | [] :: rs => [c] :: rs
  | (d :: ds) :: rs =>
    if letterClass c = letterClass d then (c :: d :: ds) :: rs else [c] :: (d :: ds) :: rs

/-- The longest runs of characters of one class. -/
def runs (cs : List Char) : List (List Char) := cs.foldr consRun []

/-- The runs with the last capital of a run of capitals moved to a run of small letters after it, as
in `HTMLElement`. -/
def regroup : List (List Char) → List (List Char)
  | [] => []
  | [r] => [r]
  | r :: s :: rs =>
    match r.getLast?, s.head? with
    | some c, some d =>
      if letterClass c = .upper ∧ letterClass d = .lower then r.dropLast :: regroup ((c :: s) :: rs)
      else r :: regroup (s :: rs)
    | _, _ => r :: regroup (s :: rs)
termination_by rs => rs.length

/-- The words of a part: by changes of letter case and between letters and digits. A part that is
not well-formed is one word. -/
def camelWords (part : Bytes) : List (List Char) :=
  if Utf8.isValid part then (regroup (runs (Utf8.lossy part))).filter (!·.isEmpty)
  else [Utf8.lossy part]

/-- A word in small letters. -/
def lowered (word : List Char) : Bytes := Utf8.encodeAll (word.map lowerChar)

/-- The kebab-case form of a name. A dash in front, as in vendor names, is kept. -/
def propertyName (name : Bytes) : Bytes :=
  let words := (parts name).flatMap camelWords
  let joined := List.intercalate (utf8 "-") (words.map lowered)
  if name.head? = some (octet '-') then octet '-' :: joined else joined

end Style

end LiveMarkup
