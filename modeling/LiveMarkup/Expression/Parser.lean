import LiveMarkup.Expression.Lexer
import LiveMarkup.Expression.Numeral

/-!
# Reading expressions

A token list is read by precedence climbing: a primary expression, then operators whose precedence
is not below the one asked for, each with its right operand; at the lowest level also a choice or a
local definition. `LiveMarkup.Expression.parse?` reads a whole text, and gives `none` when it is no
expression.

Every function returns the tokens it has left together with a proof that they are fewer than those
it was given, so the recursion is on the number of tokens. A function that may take none returns a
bound one larger.
-/

namespace LiveMarkup

namespace Expression

/-- What was read from fewer than `n` tokens short of the end: a value and the tokens left. -/
structure Read (α : Type) (n : Nat) where
  value : α
  rest : List Token
  fewer : rest.length < n

/-- The tokens after the mark `m`, if that is what comes first. -/
def skip? (m : Mark) (ts : List Token) : Option { r : List Token // r.length < ts.length } :=
  match ts with
  | .mark m' :: r => if m' = m then some ⟨r, by simp⟩ else none
  | _ => none

/-- The name that a token may be after a point: a word, also one that spells a mark. -/
def propertyName? : Token → Option Bytes
  | .word w => some w
  | .mark m => m.word?
  | _ => none

/-- The operator that a mark is between two operands. -/
def binaryOp? : Mark → Option BinaryOp
  | .orElse | .wordOr => some .or
  | .andAlso | .wordAnd => some .and
  | .equal => some .equal
  | .unequal => some .unequal
  | .less => some .less
  | .greater => some .greater
  | .lessEqual => some .lessEqual
  | .greaterEqual => some .greaterEqual
  | .wordIn => some .isIn
  | .wordMatches => some .matching
  | .wordContains => some .contains
  | .wordStartsWith => some .startsWith
  | .wordEndsWith => some .endsWith
  | .range => some .range
  | .plus => some .add
  | .minus => some .subtract
  | .times => some .multiply
  | .divide => some .divide
  | .modulo => some .modulo
  | .power => some .power
  | .coalesce => some .coalesce
  | _ => none

/-- The operators that `not` may stand in front of, as in `x not in y`. -/
def negatableMark? : Mark → Option BinaryOp
  | .wordIn => some .isIn
  | .wordMatches => some .matching
  | .wordContains => some .contains
  | .wordStartsWith => some .startsWith
  | .wordEndsWith => some .endsWith
  | _ => none

/-- The operator that a token after `not` is. It may be written as a string. -/
def negatableOp? : Token → Option BinaryOp
  | .mark m => negatableMark? m
  | .string w => (Mark.ofWord? w).bind negatableMark?
  | _ => none

/-- The comparison that comes first. -/
def comparison? (ts : List Token) : Option (Read BinaryOp ts.length) :=
  match ts with
  | .mark m :: r =>
    match (binaryOp? m).filter BinaryOp.isComparison with
    | some op => some ⟨op, r, by simp⟩
    | none => none
  | _ => none

/-- The operator that a mark is in front of an operand. -/
def unaryOp? : Mark → Option UnaryOp
  | .wordNot | .bang => some .not
  | .minus => some .negate
  | .plus => some .identity
  | _ => none

/-- The call of a function by name. The length is the one function that is known. -/
def callTerm (w : Bytes) (arguments : List Term) : Term :=
  if w = utf8 "len" then .length arguments else .call (.name w) arguments

/-- The constant that a word is, if it is one. -/
def constant? (w : Bytes) : Option Term :=
  if w = utf8 "true" then some (.bool true)
  else if w = utf8 "false" then some (.bool false)
  else if w = utf8 "nil" then some .null
  else none

/-- A part of `node`. Inside a chain the access becomes part of it, and an optional access starts
one. -/
def propertyTerm (node : Term) (wrap : Term → Term) (name : Bytes) (optional : Bool) : Term :=
  match node with
  | .chain base => .chain (wrap (.access base (.string name) optional))
  | base =>
    let part := wrap (.access base (.string name) optional)
    if optional then .chain part else part

/-- A part of `node` chosen by an index; an optional one is a chain of its own. -/
def indexTerm (node key : Term) (optional : Bool) : Term :=
  if optional then .chain (.access node key true) else .access node key false

mutual

/-- An expression whose operators have at least precedence `p`. -/
def expression? (p : Nat) (ts : List Token) : Option (Read Term ts.length) :=
  match ts with
  | .mark .wordLet :: .word x :: r =>
    if p = 0 then
      match definition? x r with
      | none => none
      | some ⟨e, r', h⟩ => some ⟨e, r', by simp only [List.length_cons]; omega⟩
    else none
  | ts =>
    match primary? ts with
    | none => none
    | some ⟨left, r, h⟩ =>
      match operators? p false left r with
      | none => none
      | some ⟨e, r', h'⟩ =>
        if p = 0 then
          match choices? e r' with
          | none => none
          | some ⟨c, r'', h''⟩ => some ⟨c, r'', by omega⟩
        else some ⟨e, r', by omega⟩
termination_by 16 * ts.length + 6

/-- A local definition of `x`, after the name, and the expression it is for. -/
def definition? (x : Bytes) (ts : List Token) : Option (Read Term ts.length) :=
  match skip? .assign ts with
  | none => none
  | some ⟨r, h⟩ =>
    match expression? 0 r with
    | none => none
    | some ⟨value, r', h'⟩ =>
      match skip? .semicolon r' with
      | none => none
      | some ⟨r'', h''⟩ =>
        match expression? 0 r'' with
        | none => none
        | some ⟨body, r''', h'''⟩ => some ⟨.letIn x value body, r''', by omega⟩
termination_by 16 * ts.length + 7

/-- A primary expression with all that follows it without an operator. -/
def primary? (ts : List Token) : Option (Read Term ts.length) :=
  match ts with
  | [] => none
  | .number t :: r => (Numeral.term? t).map fun e => ⟨e, r, by simp⟩
  | .string s :: r =>
    match parts? (.string s) r with
    | none => none
    | some ⟨e, r', h⟩ => some ⟨e, r', by simp only [List.length_cons]; omega⟩
  | .word w :: .mark .leftParen :: r =>
    match constant? w with
    | some e => some ⟨e, .mark .leftParen :: r, by simp⟩
    | none =>
      match arguments? r with
      | none => none
      | some ⟨arguments, r', h⟩ =>
        match parts? (callTerm w arguments) r' with
        | none => none
        | some ⟨e, r'', h'⟩ => some ⟨e, r'', by simp only [List.length_cons]; omega⟩
  | .word w :: r =>
    match constant? w with
    | some e => some ⟨e, r, by simp⟩
    | none =>
      match parts? (.name w) r with
      | none => none
      | some ⟨e, r', h⟩ => some ⟨e, r', by simp only [List.length_cons]; omega⟩
  | .mark .leftParen :: r =>
    match expression? 0 r with
    | none => none
    | some ⟨e, r', h⟩ =>
      match skip? .rightParen r' with
      | none => none
      | some ⟨r'', h'⟩ =>
        match parts? e r'' with
        | none => none
        | some ⟨e', r''', h''⟩ => some ⟨e', r''', by simp only [List.length_cons]; omega⟩
  | .mark .doubleColon :: .word w :: .mark .leftParen :: r =>
    match arguments? r with
    | none => none
    | some ⟨arguments, r', h⟩ =>
      match parts? (callTerm w arguments) r' with
      | none => none
      | some ⟨e, r'', h'⟩ => some ⟨e, r'', by simp only [List.length_cons]; omega⟩
  | .mark .leftBracket :: r =>
    match items? r with
    | none => none
    | some ⟨items, r', h⟩ =>
      match parts? (.list items) r' with
      | none => none
      | some ⟨e, r'', h'⟩ => some ⟨e, r'', by simp only [List.length_cons]; omega⟩
  | .mark .leftBrace :: r =>
    match entries? r with
    | none => none
    | some ⟨entries, r', h⟩ =>
      match parts? (.record entries) r' with
      | none => none
      | some ⟨e, r'', h'⟩ => some ⟨e, r'', by simp only [List.length_cons]; omega⟩
  | .mark m :: r =>
    match unaryOp? m with
    | none => none
    | some op =>
      match expression? op.precedence r with
      | none => none
      | some ⟨e, r', h⟩ =>
        match parts? (.unary op e) r' with
        | none => none
        | some ⟨e', r'', h'⟩ => some ⟨e', r'', by simp only [List.length_cons]; omega⟩
termination_by 16 * ts.length + 5

/-- The accesses, slices and method calls that follow `node`. -/
def parts? (node : Term) (ts : List Token) : Option (Read Term (ts.length + 1)) :=
  match ts with
  | .mark .questionDot :: .mark .leftBracket :: r =>
    match bracket? node true r with
    | none => none
    | some ⟨e, r', h⟩ =>
      match parts? e r' with
      | none => none
      | some ⟨e', r'', h'⟩ => some ⟨e', r'', by simp only [List.length_cons]; omega⟩
  | .mark .leftBracket :: r =>
    match bracket? node false r with
    | none => none
    | some ⟨e, r', h⟩ =>
      match parts? e r' with
      | none => none
      | some ⟨e', r'', h'⟩ => some ⟨e', r'', by simp only [List.length_cons]; omega⟩
  | .mark .dot :: t :: r =>
    match property? node false t r with
    | none => none
    | some ⟨e, r', h⟩ =>
      match parts? e r' with
      | none => none
      | some ⟨e', r'', h'⟩ => some ⟨e', r'', by simp only [List.length_cons]; omega⟩
  | .mark .questionDot :: t :: r =>
    match property? node true t r with
    | none => none
    | some ⟨e, r', h⟩ =>
      match parts? e r' with
      | none => none
      | some ⟨e', r'', h'⟩ => some ⟨e', r'', by simp only [List.length_cons]; omega⟩
  | [.mark .dot] | [.mark .questionDot] => none
  | ts => some ⟨node, ts, by omega⟩
termination_by 16 * ts.length + 4

/-- The property of `node` that the token `t` names, called if an argument list follows. -/
def property? (node : Term) (optional : Bool) (t : Token) (ts : List Token) :
    Option (Read Term (ts.length + 1)) :=
  match propertyName? t with
  | none => none
  | some name =>
    match ts with
    | .mark .leftParen :: r =>
      match arguments? r with
      | none => none
      | some ⟨arguments, r', h⟩ =>
        some ⟨propertyTerm node (fun m => .call m arguments) name optional, r', by
          simp only [List.length_cons]; omega⟩
    | ts => some ⟨propertyTerm node id name optional, ts, by omega⟩
termination_by 16 * ts.length + 3

/-- An index or a slice of `node`, after the opening bracket. -/
def bracket? (node : Term) (optional : Bool) (ts : List Token) : Option (Read Term ts.length) :=
  match skip? .colon ts with
  | some ⟨r, h⟩ =>
    match sliceEnd? node (.int 0) r with
    | none => none
    | some ⟨e, r', h'⟩ => some ⟨e, r', by omega⟩
  | none =>
    match expression? 0 ts with
    | none => none
    | some ⟨key, r, h⟩ =>
      match skip? .rightBracket r with
      | some ⟨r', h'⟩ => some ⟨indexTerm node key optional, r', by omega⟩
      | none =>
        match skip? .colon r with
        | none => none
        | some ⟨r', h'⟩ =>
          match sliceEnd? node key r' with
          | none => none
          | some ⟨e, r'', h''⟩ => some ⟨e, r'', by omega⟩
termination_by 16 * ts.length + 8

/-- The upper end of a slice of `node` and the closing bracket; without one the slice goes to the
end. -/
def sliceEnd? (node low : Term) (ts : List Token) : Option (Read Term ts.length) :=
  match skip? .rightBracket ts with
  | some ⟨r, h⟩ => some ⟨.sliceFrom node low, r, h⟩
  | none =>
    match expression? 0 ts with
    | none => none
    | some ⟨high, r, h⟩ =>
      match skip? .rightBracket r with
      | none => none
      | some ⟨r', h'⟩ => some ⟨.slice node low high, r', by omega⟩
termination_by 16 * ts.length + 7

/-- The arguments of a call, after the opening parenthesis. -/
def arguments? (ts : List Token) : Option (Read (List Term) ts.length) :=
  match skip? .rightParen ts with
  | some ⟨r, h⟩ => some ⟨[], r, h⟩
  | none =>
    match expression? 0 ts with
    | none => none
    | some ⟨e, r, h⟩ =>
      match moreArguments? r with
      | none => none
      | some ⟨es, r', h'⟩ => some ⟨e :: es, r', by omega⟩
termination_by 16 * ts.length + 7

/-- The arguments of a call after the first one. -/
def moreArguments? (ts : List Token) : Option (Read (List Term) ts.length) :=
  match skip? .rightParen ts with
  | some ⟨r, h⟩ => some ⟨[], r, h⟩
  | none =>
    match skip? .comma ts with
    | none => none
    | some ⟨r, h⟩ =>
      match expression? 0 r with
      | none => none
      | some ⟨e, r', h'⟩ =>
        match moreArguments? r' with
        | none => none
        | some ⟨es, r'', h''⟩ => some ⟨e :: es, r'', by omega⟩
termination_by 16 * ts.length + 7

/-- The items of a list, after the opening bracket or a comma: a comma may stand before the closing
bracket. -/
def items? (ts : List Token) : Option (Read (List Term) ts.length) :=
  match skip? .rightBracket ts with
  | some ⟨r, h⟩ => some ⟨[], r, h⟩
  | none =>
    match expression? 0 ts with
    | none => none
    | some ⟨e, r, h⟩ =>
      match skip? .rightBracket r with
      | some ⟨r', h'⟩ => some ⟨[e], r', by omega⟩
      | none =>
        match skip? .comma r with
        | none => none
        | some ⟨r', h'⟩ =>
          match items? r' with
          | none => none
          | some ⟨es, r'', h''⟩ => some ⟨e :: es, r'', by omega⟩
termination_by 16 * ts.length + 7

/-- The entries of a record, after the opening brace or a comma: a comma may stand before the
closing brace. -/
def entries? (ts : List Token) : Option (Read (List (Term × Term)) ts.length) :=
  match skip? .rightBrace ts with
  | some ⟨r, h⟩ => some ⟨[], r, h⟩
  | none =>
    match entry? ts with
    | none => none
    | some ⟨e, r, h⟩ =>
      match skip? .rightBrace r with
      | some ⟨r', h'⟩ => some ⟨[e], r', by omega⟩
      | none =>
        match skip? .comma r with
        | none => none
        | some ⟨r', h'⟩ =>
          match entries? r' with
          | none => none
          | some ⟨es, r'', h''⟩ => some ⟨e :: es, r'', by omega⟩
termination_by 16 * ts.length + 9

/-- One entry of a record: a key, a colon and a value. -/
def entry? (ts : List Token) : Option (Read (Term × Term) ts.length) :=
  match key? ts with
  | none => none
  | some ⟨k, r, h⟩ =>
    match skip? .colon r with
    | none => none
    | some ⟨r', h'⟩ =>
      match expression? 0 r' with
      | none => none
      | some ⟨e, r'', h''⟩ => some ⟨(k, e), r'', by omega⟩
termination_by 16 * ts.length + 8

/-- The key of an entry: a number, a string or a word, taken as it is written, or an expression that
starts with a parenthesis. -/
def key? (ts : List Token) : Option (Read Term ts.length) :=
  match ts with
  | .number k :: r => some ⟨.string k, r, by simp⟩
  | .string k :: r => some ⟨.string k, r, by simp⟩
  | .word k :: r => some ⟨.string k, r, by simp⟩
  | .mark .leftParen :: r => expression? 0 (.mark .leftParen :: r)
  | _ => none
termination_by 16 * ts.length + 7

/-- The operators of at least precedence `p` that follow `left`, with their right operands. After a
`??`, which `coalesced` records, no other operator may follow at this level. -/
def operators? (p : Nat) (coalesced : Bool) (left : Term) (ts : List Token) :
    Option (Read Term (ts.length + 1)) :=
  match ts with
  | .mark .wordNot :: t :: r =>
    match negatableOp? t with
    | none => none
    | some op =>
      if op.precedence < p then some ⟨left, .mark .wordNot :: t :: r, by omega⟩
      else if coalesced then none
      else match expression? op.rightPrecedence r with
        | none => none
        | some ⟨right, r', h⟩ =>
          match operators? p false (.unary .not (.binary op left right)) r' with
          | none => none
          | some ⟨e, r'', h'⟩ => some ⟨e, r'', by simp only [List.length_cons]; omega⟩
  | [.mark .wordNot] => none
  | .mark .pipe :: r =>
    if 0 < p then some ⟨left, .mark .pipe :: r, by omega⟩
    else match r with
      | .word w :: .mark .leftParen :: r' =>
        match arguments? r' with
        | none => none
        | some ⟨arguments, r'', h⟩ =>
          match operators? p false (callTerm w (left :: arguments)) r'' with
          | none => none
          | some ⟨e, r''', h'⟩ => some ⟨e, r''', by simp only [List.length_cons]; omega⟩
      | _ => none
  | .mark m :: r =>
    match binaryOp? m with
    | none => some ⟨left, .mark m :: r, by omega⟩
    | some op =>
      if op.precedence < p then some ⟨left, .mark m :: r, by omega⟩
      else if coalesced && op ≠ .coalesce then none
      else if op.isComparison then
        match comparisons? none left op r with
        | none => none
        | some ⟨e, r', h⟩ =>
          match operators? p false e r' with
          | none => none
          | some ⟨e', r'', h'⟩ => some ⟨e', r'', by simp only [List.length_cons]; omega⟩
      else
        match expression? op.rightPrecedence r with
        | none => none
        | some ⟨right, r', h⟩ =>
          match operators? p (op = .coalesce) (.binary op left right) r' with
          | none => none
          | some ⟨e, r'', h'⟩ => some ⟨e, r'', by simp only [List.length_cons]; omega⟩
  | ts => some ⟨left, ts, by omega⟩
termination_by 16 * ts.length + 7

/-- A chain of comparisons after its first operator: every operand is compared with the next one,
and all the comparisons have to hold. -/
def comparisons? (sofar : Option Term) (left : Term) (op : BinaryOp) (ts : List Token) :
    Option (Read Term ts.length) :=
  match expression? op.rightPrecedence ts with
  | none => none
  | some ⟨right, r, h⟩ =>
    let one := Term.binary op left right
    let all := match sofar with
      | none => one
      | some e => .binary .and e one
    match comparison? r with
    | none => some ⟨all, r, h⟩
    | some ⟨op', r', h'⟩ =>
      match comparisons? (some all) right op' r' with
      | none => none
      | some ⟨e, r'', h''⟩ => some ⟨e, r'', by omega⟩
termination_by 16 * ts.length + 7

/-- The choices that follow a condition. Without a first alternative the condition itself is it. -/
def choices? (condition : Term) (ts : List Token) : Option (Read Term (ts.length + 1)) :=
  match skip? .question ts with
  | none => some ⟨condition, ts, by omega⟩
  | some ⟨r, h⟩ =>
    match alternatives? condition r with
    | none => none
    | some ⟨c, r', h'⟩ =>
      match choices? c r' with
      | none => none
      | some ⟨e, r'', h''⟩ => some ⟨e, r'', by omega⟩
termination_by 16 * ts.length + 7

/-- The alternatives of one choice, after the question mark. -/
def alternatives? (condition : Term) (ts : List Token) : Option (Read Term ts.length) :=
  match skip? .colon ts with
  | some ⟨r, h⟩ =>
    match expression? 0 r with
    | none => none
    | some ⟨no, r', h'⟩ => some ⟨.choice condition condition no, r', by omega⟩
  | none =>
    match expression? 0 ts with
    | none => none
    | some ⟨yes, r, h⟩ =>
      match skip? .colon r with
      | none => none
      | some ⟨r', h'⟩ =>
        match expression? 0 r' with
        | none => none
        | some ⟨no, r'', h''⟩ => some ⟨.choice condition yes no, r'', by omega⟩
termination_by 16 * ts.length + 7

end

/-- The expression that a text is. -/
def parse? (s : Bytes) : Option Term :=
  match tokens? s with
  | none => none
  | some ts =>
    match expression? 0 ts with
    | none => none
    | some e => if e.rest.isEmpty then some e.value else none

end Expression

end LiveMarkup
