import LiveMarkup.Expression.Kind

/-!
# Resolution of expressions

`LiveMarkup.Expression.resolve?` works out the shape of an expression from the shapes of its parts
under the local definitions in scope. It is `none` if an operand has a kind that its operator does
not take. The term it returns has the same meaning, with the operators chosen for the known kinds.
-/

namespace LiveMarkup

namespace Expression

/-- The shape and the term of an expression of a given kind. -/
def plain (k : Kind) (e : Term) : Option (Shape × Term) := some (⟨k, none⟩, e)

/-- The shape and the term of an operator applied to resolved operands; `written` is the right
operand before resolution. -/
def resolveBinary? (op : BinaryOp) (written : Term) (l r : Shape × Term) : Option (Shape × Term) :=
  match op with
  | .isIn =>
    if mayContain l.1.kind r.1 then plain .bool (resolvedIn l.1.kind l.2 written r.2) else none
  | .equal =>
    match binaryKind? .equal l.1.kind r.1.kind with
    | some k => plain k (resolvedEqual l.1.kind r.1.kind l.2 r.2)
    | none => none
  | op =>
    match binaryKind? op l.1.kind r.1.kind with
    | some k => plain k (.binary op l.2 r.2)
    | none => none

/-- The shape and the term of an operator applied to a resolved operand. -/
def resolveUnary? (op : UnaryOp) (e : Shape × Term) : Option (Shape × Term) :=
  match op with
  | .not => if e.1.kind.isCondition then plain .bool (.unary op e.2) else none
  | _ => if e.1.kind.isNumber || e.1.kind == .any then plain e.1.kind (.unary op e.2) else none

mutual

/-- The shape of an expression and its resolved form. -/
def resolve? (scope : Fields Shape) : Term → Option (Shape × Term)
  | .null => plain .null .null
  | .bool b => plain .bool (.bool b)
  | .int n => plain .int (.int n)
  | .float x => plain .float (.float x)
  | .string s => plain .string (.string s)
  | .name x => some (nameShape scope x, .name x)
  | .unary op e =>
    match resolve? scope e with
    | some e' => resolveUnary? op e'
    | none => none
  | .binary op l r =>
    match resolve? scope l, resolve? scope r with
    | some l', some r' => resolveBinary? op r l' r'
    | _, _ => none
  | .access base key optional =>
    match resolve? scope base, resolve? scope key with
    | some b, some k =>
      match accessKind? b.1.kind k.1.kind with
      | some kind => plain kind (.access b.2 k.2 optional)
      | none => none
    | _, _ => none
  | .chain e =>
    match resolve? scope e with
    | some e' => some (e'.1, .chain e'.2)
    | none => none
  | .slice base low high =>
    match resolve? scope base, resolve? scope low, resolve? scope high with
    | some b, some l, some h =>
      if b.1.kind.isSliceable && l.1.kind.isIndex && h.1.kind.isIndex then
        plain b.1.kind (.slice b.2 l.2 h.2)
      else none
    | _, _, _ => none
  | .sliceFrom base low =>
    match resolve? scope base, resolve? scope low with
    | some b, some l =>
      if b.1.kind.isSliceable && l.1.kind.isIndex then plain b.1.kind (.sliceFrom b.2 l.2)
      else none
    | _, _ => none
  | .choice c yes no =>
    match resolve? scope c, resolve? scope yes, resolve? scope no with
    | some c', some y, some n =>
      if c'.1.kind.isCondition then
        plain (Kind.join y.1.kind n.1.kind) (.choice c'.2 y.2 n.2)
      else none
    | _, _, _ => none
  | .list items =>
    match resolveAll? scope items with
    | some rs => some (⟨.list, commonKind? (rs.map Prod.fst)⟩, .list (rs.map Prod.snd))
    | none => none
  | .constant number items => plain .list (.constant number items)
  | .record entries =>
    match resolveEntries? scope entries with
    | some rs => plain .record (.record rs)
    | none => none
  | .length arguments =>
    match resolveAll? scope arguments with
    | some [e] => if e.1.kind.hasLength then plain .int (.length [e.2]) else none
    | _ => none
  | .call callee arguments =>
    match resolve? scope callee with
    | some c =>
      if c.1.kind == .any || c.1.kind == .function then plain .any (.call c.2 arguments) else none
    | none => none
  | .letIn x value body =>
    if x ∈ functionNames || scope.any (·.1 = x) then none
    else
      match resolve? scope value with
      | none => none
      | some v =>
        match resolve? ((x, v.1) :: scope) body with
        | some b => some (b.1, .letIn x v.2 b.2)
        | none => none

/-- The shapes and the resolved forms of a list of expressions. -/
def resolveAll? (scope : Fields Shape) : List Term → Option (List (Shape × Term))
  | [] => some []
  | e :: es =>
    match resolve? scope e, resolveAll? scope es with
    | some e', some es' => some (e' :: es')
    | _, _ => none

/-- The resolved forms of the entries of a record. -/
def resolveEntries? (scope : Fields Shape) : List (Term × Term) → Option (List (Term × Term))
  | [] => some []
  | (k, e) :: es =>
    match resolve? scope k, resolve? scope e, resolveEntries? scope es with
    | some k', some e', some es' => some ((k'.2, e'.2) :: es')
    | _, _, _ => none

end

end Expression

end LiveMarkup
