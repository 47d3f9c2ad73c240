import LiveMarkup.Text.Bytes

/-!
# Tokens of expressions

An expression is a sequence of words, numbers, strings and marks. A mark is an operator or a
bracket; some of the operators are spelt as words.
-/

namespace LiveMarkup

namespace Expression

/-- Operators and brackets. -/
inductive Mark
  | leftParen | rightParen | leftBracket | rightBracket | leftBrace | rightBrace
  | comma | semicolon | colon | doubleColon | dot | questionDot | question | coalesce
  | pipe | orElse | andAlso | equal | unequal | less | greater | lessEqual | greaterEqual
  | range | plus | minus | times | divide | modulo | power | bang | assign | hash
  | wordNot | wordIn | wordOr | wordAnd | wordMatches | wordContains | wordStartsWith
  | wordEndsWith | wordLet
  /-- A sequence of operator characters that is no operator. -/
  | unknown
  deriving DecidableEq, Repr

/-- The marks that are spelt as words, with their spelling. -/
def Mark.spellings : List (Bytes × Mark) :=
  [(utf8 "not", .wordNot), (utf8 "in", .wordIn), (utf8 "or", .wordOr), (utf8 "and", .wordAnd),
   (utf8 "matches", .wordMatches), (utf8 "contains", .wordContains),
   (utf8 "startsWith", .wordStartsWith), (utf8 "endsWith", .wordEndsWith),
   (utf8 "let", .wordLet)]

/-- The mark that a word spells, if it spells one. -/
def Mark.ofWord? (w : Bytes) : Option Mark :=
  (Mark.spellings.find? fun p => p.1 == w).map (·.2)

/-- The word that a mark is spelt as, if it is. -/
def Mark.word? (m : Mark) : Option Bytes :=
  (Mark.spellings.find? fun p => p.2 == m).map (·.1)

/-- A token of an expression. -/
inductive Token
  /-- A name, or `true`, `false` or `nil`. -/
  | word (text : Bytes)
  /-- A numeral as written. -/
  | number (text : Bytes)
  /-- The content of a string literal. -/
  | string (text : Bytes)
  /-- An operator or a bracket. -/
  | mark (mark : Mark)
  deriving DecidableEq, Repr

end Expression

end LiveMarkup
