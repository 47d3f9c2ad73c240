import LiveMarkup.Expression.Term

/-!
# The literals of an expression

An expression keeps every literal once. Two floating numbers that are equal are one literal, so all
zeros have the sign of the first one. A list that holds nothing but literals is a literal itself: it
is made once, and its items are its own.

`LiveMarkup.Expression.pooled` is an expression with its literals kept in this way, in the order in
which they are evaluated.
-/

namespace LiveMarkup

namespace Expression

/-- The literals that were met so far. -/
structure Pool where
  /-- The first zero among the floating numbers. -/
  zero? : Option Float := none
  /-- How many lists of literals there were. -/
  lists : Nat := 0

namespace Pool

/-- A floating number of the pool that is equal to a given one. -/
def float (p : Pool) (x : Float) : Float × Pool :=
  if x == 0 then
    match p.zero? with
    | some z => (z, p)
    | none => (x, { p with zero? := some x })
  else (x, p)

end Pool

/-- Whether an expression can be an item of a list of literals. -/
def Term.isLiteral : Term → Bool
  | .bool _ | .int _ | .float _ | .string _ => true
  | _ => false

mutual

/-- An expression with its literals kept in a pool, and the pool after it. -/
def pool : Term → Pool → Term × Pool
  | .float x, p => let r := p.float x; (.float r.1, r.2)
  | .unary op e, p => let r := pool e p; (.unary op r.1, r.2)
  | .binary op l r, p =>
    let a := pool l p
    let b := pool r a.2
    (.binary op a.1 b.1, b.2)
  | .access base key optional, p =>
    let a := pool base p
    let b := pool key a.2
    (.access a.1 b.1 optional, b.2)
  | .chain e, p => let r := pool e p; (.chain r.1, r.2)
  | .slice base low high, p =>
    let a := pool base p
    let b := pool high a.2
    let c := pool low b.2
    (.slice a.1 c.1 b.1, c.2)
  | .sliceFrom base low, p =>
    let a := pool base p
    let b := pool low a.2
    (.sliceFrom a.1 b.1, b.2)
  | .choice c yes no, p =>
    let a := pool c p
    let b := pool yes a.2
    let d := pool no b.2
    (.choice a.1 b.1 d.1, d.2)
  | .list items, p =>
    if !items.isEmpty && items.all Term.isLiteral then
      (.constant p.lists items, { p with lists := p.lists + 1 })
    else let r := poolAll items p; (.list r.1, r.2)
  | .record entries, p => let r := poolEntries entries p; (.record r.1, r.2)
  | .length arguments, p => let r := poolAll arguments p; (.length r.1, r.2)
  | .call callee arguments, p =>
    let a := poolAll arguments p
    let b := pool callee a.2
    (.call b.1 a.1, b.2)
  | .letIn x value body, p =>
    let a := pool value p
    let b := pool body a.2
    (.letIn x a.1 b.1, b.2)
  | e, p => (e, p)

/-- A list of expressions with their literals kept in a pool. -/
def poolAll : List Term → Pool → List Term × Pool
  | [], p => ([], p)
  | e :: es, p =>
    let a := pool e p
    let b := poolAll es a.2
    (a.1 :: b.1, b.2)

/-- The entries of a record with their literals kept in a pool. -/
def poolEntries : List (Term × Term) → Pool → List (Term × Term) × Pool
  | [], p => ([], p)
  | (k, e) :: es, p =>
    let a := pool k p
    let b := pool e a.2
    let c := poolEntries es b.2
    ((a.1, b.1) :: c.1, c.2)

end

/-- An expression with its literals kept once. -/
def pooled (e : Term) : Term := (pool e {}).1

end Expression

end LiveMarkup
