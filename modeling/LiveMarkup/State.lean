import LiveMarkup.Source.Position
import LiveMarkup.Text.Fields

/-!
# State declarations

A state is a named value that the running page can change. Its initializer is kept as it is written.

`LiveMarkup.StateTable` keeps the declarations in the order of the first declaration of each name,
and an index of their places. A name that is declared again takes the new initializer and keeps its
place and its position.
-/

namespace LiveMarkup

/-- A declared state. -/
structure StateDeclaration where
  name : Bytes
  initializer : Bytes
  position : Position
  deriving DecidableEq, Repr

/-- The name and the initializer of a declaration line. -/
structure StateLine where
  name : Bytes
  initializer : Bytes
  deriving DecidableEq, Repr

namespace StateLine

/-- What the initializer is, of what stands after the equals sign: white space in front does not
count, unless there is nothing else. An initializer is on one line and not empty. -/
def initializer? (s : Bytes) : Option Bytes :=
  let t := s.dropWhile isPatternBlank
  let init := if t.isEmpty then s.drop (s.length - 1) else t
  if init.isEmpty ∨ octet '\n' ∈ init then none else some init

/-- The name and the initializer of a line that is a declaration. -/
def parse? (s : Bytes) : Option StateLine :=
  match Bytes.after? (utf8 "state") s with
  | none => none
  | some r =>
    if r.head?.any isPatternBlank then
      match r.dropWhile isPatternBlank with
      | [] => none
      | b :: t =>
        if isAlphaOctet b || b == octet '_' then
          match (t.dropWhile isIdentOctet).dropWhile isPatternBlank with
          | [] => none
          | c :: u =>
            if c = octet '=' then
              (initializer? u).map fun init => ⟨b :: t.takeWhile isIdentOctet, init⟩
            else none
        else none
    else none

end StateLine

/-! ### The table of a source -/

/-- The place of every name of a list. -/
def places (names : List Bytes) : Fields Nat := Fields.ofList names.zipIdx

theorem places_nil : [] = places ([].map StateDeclaration.name) := rfl

theorem places_concat (names : List Bytes) (x : Bytes) :
    places (names ++ [x]) = Fields.insert x names.length (places names) := by
  rw [places, List.zipIdx_append, Nat.zero_add, Fields.ofList, List.foldl_append]
  rfl

theorem getElem?_of_places {names : List Bytes} {x : Bytes} {i : Nat}
    (h : Fields.get? x (places names) = some i) : names[i]? = some x :=
  List.mem_zipIdx_iff_getElem?.mp (Fields.mem_of_get?_ofList h)

theorem places_eq_none_iff {names : List Bytes} {x : Bytes} :
    Fields.get? x (places names) = none ↔ x ∉ names := by
  rw [places, Fields.get?_ofList_eq_none_iff, List.zipIdx_map_fst]

/-- The declarations of a source, and where the declaration of each name stands among them. No name
is declared twice. -/
structure StateTable where
  declarations : List StateDeclaration := []
  index : Fields Nat := []
  distinct : (declarations.map StateDeclaration.name).Nodup := by exact List.nodup_nil
  indexed : index = places (declarations.map StateDeclaration.name) := by exact places_nil
  deriving DecidableEq, Repr

namespace StateTable

/-- The declaration of a name. -/
def lookup? (t : StateTable) (name : Bytes) : Option StateDeclaration :=
  (Fields.get? name t.index).bind (t.declarations[·]?)

/-- Whether a name is declared. -/
def has (t : StateTable) (name : Bytes) : Bool := (t.lookup? name).isSome

/-- The declared names, in the order of their first declarations. -/
def names (t : StateTable) : List Bytes := t.declarations.map (·.name)

/-- The number of declared names. -/
def size (t : StateTable) : Nat := t.declarations.length

/-- The declarations with that at a place replaced, but for its position. -/
def replace (i : Nat) (name initializer : Bytes) (ds : List StateDeclaration) :
    List StateDeclaration :=
  ds.modify i fun d => ⟨name, initializer, d.position⟩

/-- What the index says of a name is so. -/
theorem getElem?_names_of_index {t : StateTable} {x : Bytes} {i : Nat}
    (h : Fields.get? x t.index = some i) : t.names[i]? = some x :=
  getElem?_of_places (t.indexed ▸ h)

theorem get?_index_eq_none_iff {t : StateTable} {x : Bytes} :
    Fields.get? x t.index = none ↔ x ∉ t.names := by
  rw [t.indexed, places_eq_none_iff, names]

/-- A declaration that is replaced keeps its name. -/
theorem map_name_replace {t : StateTable} {name : Bytes} {i : Nat}
    (h : Fields.get? name t.index = some i) (initializer : Bytes) :
    (replace i name initializer t.declarations).map StateDeclaration.name = t.names := by
  have hname : t.declarations[i]?.map StateDeclaration.name = some name := by
    rw [← List.getElem?_map]
    exact getElem?_names_of_index h
  refine List.ext_getElem? fun j => ?_
  rw [replace, List.getElem?_map, List.getElem?_modify, names, List.getElem?_map]
  by_cases hij : i = j
  · subst hij
    rw [hname]
    obtain ⟨d, hd, -⟩ := Option.map_eq_some_iff.mp hname
    simp [hd]
  · simp [hij]

theorem nodup_concat {t : StateTable} {d : StateDeclaration}
    (h : Fields.get? d.name t.index = none) :
    ((t.declarations ++ [d]).map StateDeclaration.name).Nodup := by
  rw [List.map_append, List.nodup_append]
  refine ⟨t.distinct, List.nodup_cons.mpr ⟨List.not_mem_nil, List.nodup_nil⟩, fun x hx y hy => ?_⟩
  obtain rfl := List.mem_singleton.mp hy
  exact fun hxy => get?_index_eq_none_iff.mp h (hxy ▸ hx)

theorem indexed_concat (t : StateTable) (d : StateDeclaration) :
    Fields.insert d.name t.declarations.length t.index =
      places ((t.declarations ++ [d]).map StateDeclaration.name) := by
  rw [List.map_append, List.map_singleton, places_concat, t.indexed, List.length_map]

/-- The table after one more declaration, and whether the name was declared before. A name that was
keeps its place and its position. -/
def declare (t : StateTable) (name initializer : Bytes) (position : Position) :
    StateTable × Bool :=
  match h : Fields.get? name t.index with
  | some i =>
    ({ declarations := replace i name initializer t.declarations
       index := t.index
       distinct := (map_name_replace h initializer).symm ▸ t.distinct
       indexed := (map_name_replace h initializer).symm ▸ t.indexed }, true)
  | none =>
    ({ declarations := t.declarations ++ [⟨name, initializer, position⟩]
       index := Fields.insert name t.declarations.length t.index
       distinct := nodup_concat h
       indexed := indexed_concat t ⟨name, initializer, position⟩ }, false)

end StateTable

end LiveMarkup
