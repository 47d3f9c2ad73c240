import LiveMarkup.State
import Mathlib.Data.List.Induction
import Mathlib.Data.List.Nodup

/-!
# Tables of states

A table is made by declaring names one after another, some of them again. The three parts of an
entry then follow different rules: its place is that of the first declaration of the name, and so is
its position, but its initializer is that of the last one. The entry for a name can thus be read off
the list of declarations, without any table (`LiveMarkup.StateDeclaration.combined?`), and
`LiveMarkup.StateTable.lookup?_declareAll` says that it is what a table has.

A table keeps a list of declarations and an index of their places, and every table carries the proof
that the two agree; `LiveMarkup.StateTable.lookup?_eq_some_iff` is what this means for looking a
name up. What one declaration does is in `LiveMarkup.StateTable.declarations_declare` and
`LiveMarkup.StateTable.lookup?_declare`; what many do follows by induction on the last one.
-/

namespace LiveMarkup

/-! ### First occurrences -/

/-- Of a list with one more entry, the entries that are there for the first time. -/
theorem eraseDups_concat (ks : List Bytes) (k : Bytes) :
    (ks ++ [k]).eraseDups = if k ∈ ks then ks.eraseDups else ks.eraseDups ++ [k] := by
  rw [List.eraseDups_append]
  split
  · rename_i hk
    have hremove : [k].removeAll ks = [] := by simp [List.removeAll, hk]
    rw [hremove, List.eraseDups_nil, List.append_nil]
  · rename_i hk
    have hremove : [k].removeAll ks = [k] := by simp [List.removeAll, hk]
    rw [hremove]
    rfl

theorem nodup_eraseDups (ks : List Bytes) : ks.eraseDups.Nodup := by
  induction ks using List.reverseRecOn with
  | nil => exact List.nodup_nil
  | append_singleton ks k ih =>
    rw [eraseDups_concat]
    split
    · exact ih
    · rename_i hnew
      exact List.nodup_append_comm.mp (List.nodup_cons.mpr ⟨by simpa using hnew, ih⟩)

/-- A declaration with another initializer, if it is one of the name. -/
def StateDeclaration.revised (name initializer : Bytes) (d : StateDeclaration) : StateDeclaration :=
  if d.name = name then { d with initializer } else d

namespace StateDeclaration

variable {name initializer : Bytes} {d : StateDeclaration}

@[simp] theorem name_revised : (d.revised name initializer).name = d.name := by
  rw [revised]
  split <;> rfl

theorem revised_of_eq (h : d.name = name) :
    d.revised name initializer = ⟨name, initializer, d.position⟩ := by
  subst h
  rw [revised, if_pos rfl]

theorem revised_of_ne (h : d.name ≠ name) : d.revised name initializer = d := if_neg h

theorem map_revised_of_notMem {ds : List StateDeclaration} (h : name ∉ ds.map StateDeclaration.name)
    (initializer : Bytes) : ds.map (revised name initializer) = ds := by
  refine (List.map_congr_left fun d hd => ?_).trans (List.map_id ds)
  exact revised_of_ne fun hname => h (hname ▸ List.mem_map_of_mem hd)

end StateDeclaration

namespace StateTable

open StateDeclaration

variable {t : StateTable} {name initializer x : Bytes} {position : Position}

/-! ### The two structures of a table -/

/-- **A table is determined by its declarations**, since they say what its index is. -/
theorem ext_declarations {t u : StateTable} (h : t.declarations = u.declarations) : t = u := by
  obtain ⟨ds, index, distinct, hindex⟩ := t
  obtain ⟨es, index', distinct', hindex'⟩ := u
  dsimp only at h
  subst h hindex hindex'
  rfl

/-- **The index of a table has the places of its names.** -/
theorem get?_index_iff {i : Nat} : Fields.get? x t.index = some i ↔ t.names[i]? = some x := by
  refine ⟨getElem?_names_of_index, fun h => ?_⟩
  cases hget : Fields.get? x t.index with
  | none => exact absurd (List.mem_of_getElem? h) (get?_index_eq_none_iff.mp hget)
  | some j =>
    -- A name is at one place only.
    have hlt := (List.getElem?_eq_some_iff.mp h).1
    rw [(List.getElem?_inj hlt t.distinct).mp (h.trans (getElem?_names_of_index hget).symm)]

/-- **What is found under a name** is the declaration of that name. -/
theorem lookup?_eq_some_iff {d : StateDeclaration} :
    t.lookup? x = some d ↔ d ∈ t.declarations ∧ d.name = x := by
  constructor
  · intro h
    obtain ⟨i, hi, hd⟩ := Option.bind_eq_some_iff.mp h
    have hname := getElem?_names_of_index hi
    rw [names, List.getElem?_map, hd] at hname
    exact ⟨List.mem_of_getElem? hd, Option.some.inj hname⟩
  · rintro ⟨hd, rfl⟩
    obtain ⟨i, hi⟩ := List.mem_iff_getElem?.mp hd
    have hindex : Fields.get? d.name t.index = some i := by
      rw [get?_index_iff, names, List.getElem?_map, hi]
      rfl
    rw [lookup?, hindex, Option.bind_some, hi]

theorem has_iff_mem_names : t.has x ↔ x ∈ t.names := by
  rw [has, Option.isSome_iff_exists, names, List.mem_map]
  exact exists_congr fun d => lookup?_eq_some_iff

theorem isSome_index : (Fields.get? x t.index).isSome = t.has x := by
  rw [Bool.eq_iff_iff, has_iff_mem_names, Option.isSome_iff_ne_none, Ne, get?_index_eq_none_iff,
    not_not]

/-! ### One declaration -/

/-- **A declaration answers whether its name was declared before.** -/
theorem snd_declare (t : StateTable) (name initializer : Bytes) (position : Position) :
    (t.declare name initializer position).2 = t.has name := by
  rw [← isSome_index, declare]
  split
  · rename_i i hi
    exact (congrArg Option.isSome hi).symm
  · rename_i hnone
    exact (congrArg Option.isSome hnone).symm

/-- What is replaced at the place of a name is the declaration of the name. -/
theorem replace_eq_map_revised {i : Nat} (h : Fields.get? name t.index = some i)
    (initializer : Bytes) :
    replace i name initializer t.declarations =
      t.declarations.map (revised name initializer) := by
  refine List.ext_getElem? fun j => ?_
  rw [replace, List.getElem?_modify, List.getElem?_map]
  cases hd : t.declarations[j]? with
  | none => rfl
  | some d =>
    have hplace : Fields.get? d.name t.index = some j := by
      rw [get?_index_iff, names, List.getElem?_map, hd]
      rfl
    by_cases hij : i = j
    · subst hij
      have hname : some d.name = some name := by
        rw [← getElem?_names_of_index h, getElem?_names_of_index hplace]
      rw [Option.map_some, revised_of_eq (Option.some.inj hname)]
      simp
    · have hname : d.name ≠ name := by
        rintro rfl
        exact hij (Option.some.inj (h.symm.trans hplace))
      rw [Option.map_some, revised_of_ne hname]
      simp [hij]

/-- **The declarations after one more**: the initializer of a name that is declared is replaced, and
a new name is put behind the others. -/
theorem declarations_declare (t : StateTable) (name initializer : Bytes) (position : Position) :
    (t.declare name initializer position).1.declarations =
      if t.has name then t.declarations.map (revised name initializer)
      else t.declarations ++ [⟨name, initializer, position⟩] := by
  rw [← isSome_index, declare]
  split
  · rename_i i hi
    rw [if_pos (by rw [hi]; rfl)]
    exact replace_eq_map_revised hi initializer
  · rename_i hnone
    rw [if_neg (by simp [hnone])]

theorem declarations_of_has (h : t.has x) (i : Bytes) (p : Position) :
    (t.declare x i p).1.declarations = t.declarations.map (revised x i) := by
  rw [declarations_declare, if_pos h]

theorem declarations_of_not_has (h : ¬t.has x) (i : Bytes) (p : Position) :
    (t.declare x i p).1.declarations = t.declarations ++ [⟨x, i, p⟩] := by
  rw [declarations_declare, if_neg h]

/-- **Names are declared once**, where they are declared first. -/
theorem names_declare (t : StateTable) (name initializer : Bytes) (position : Position) :
    (t.declare name initializer position).1.names =
      if t.has name then t.names else t.names ++ [name] := by
  rw [names, declarations_declare]
  split
  · rw [List.map_map, names]
    exact List.map_congr_left fun d _ => name_revised
  · rw [List.map_append, names]
    rfl

theorem has_declare :
    (t.declare name initializer position).1.has x ↔ t.has x ∨ x = name := by
  have hx : t.has x ↔ x ∈ t.names := has_iff_mem_names
  rw [has_iff_mem_names, names_declare, hx]
  split
  · rename_i h
    constructor
    · exact Or.inl
    · rintro (hx | rfl)
      · exact hx
      · exact has_iff_mem_names.mp h
  · rw [List.mem_append, List.mem_singleton]

/-- **What is found after one more declaration**: under its name its initializer, with the position
that was there before or else its own, and under the other names what was there. -/
theorem lookup?_declare (t : StateTable) (name initializer : Bytes) (position : Position)
    (x : Bytes) : (t.declare name initializer position).1.lookup? x =
      if name = x then
        some ⟨x, initializer, ((t.lookup? x).map StateDeclaration.position).getD position⟩
      else t.lookup? x := by
  by_cases hx : name = x
  · subst hx
    rw [if_pos rfl, lookup?_eq_some_iff]
    refine ⟨?_, rfl⟩
    cases hlookup : t.lookup? name with
    | none =>
      rw [declarations_of_not_has (by simp [has, hlookup])]
      exact List.mem_append_right _ (List.mem_singleton_self _)
    | some d =>
      obtain ⟨hd, hname⟩ := lookup?_eq_some_iff.mp hlookup
      rw [declarations_of_has (by simp [has, hlookup])]
      exact List.mem_map.mpr ⟨d, hd, revised_of_eq hname⟩
  · rw [if_neg hx]
    refine Option.ext fun d => ?_
    rw [lookup?_eq_some_iff, lookup?_eq_some_iff, declarations_declare]
    refine and_congr_left fun hd => ?_
    have hne : d.name ≠ name := fun h => hx (h.symm.trans hd)
    split
    · -- A declaration of another name is not revised.
      rw [List.mem_map]
      constructor
      · rintro ⟨e, he, rfl⟩
        rw [name_revised] at hne
        rwa [revised_of_ne hne]
      · exact fun hmem => ⟨d, hmem, revised_of_ne hne⟩
    · rw [List.mem_append, List.mem_singleton, or_iff_left]
      rintro rfl
      exact hne rfl

end StateTable

/-! ### Many declarations -/

/-- The entry that declarations make for a name: the position is that of the first declaration of
the name, and the initializer that of the last one. -/
def StateDeclaration.combined? (x : Bytes) (ds : List StateDeclaration) : Option StateDeclaration :=
  let own := ds.filter (·.name = x)
  own.head?.bind fun first => own.getLast?.map fun last => ⟨x, last.initializer, first.position⟩

theorem StateDeclaration.combined?_concat (x : Bytes) (ds : List StateDeclaration)
    (d : StateDeclaration) : combined? x (ds ++ [d]) =
      if d.name = x then
        some ⟨x, d.initializer, ((combined? x ds).map StateDeclaration.position).getD d.position⟩
      else combined? x ds := by
  rw [combined?, combined?, List.filter_append]
  split
  · rename_i hx
    rw [List.filter_cons_of_pos (by simpa using hx), List.filter_nil]
    -- Either this is the first declaration of the name, or the first one stays in front.
    cases ds.filter (·.name = x) with
    | nil => rfl
    | cons first rest => simp [List.getLast?_cons]
  · rename_i hx
    rw [List.filter_cons_of_neg (by simpa using hx), List.filter_nil, List.append_nil]

theorem StateDeclaration.map_initializer_combined? (x : Bytes) (ds : List StateDeclaration) :
    (combined? x ds).map StateDeclaration.initializer =
      ((ds.filter (·.name = x)).getLast?).map StateDeclaration.initializer := by
  rw [combined?]
  cases ds.filter (·.name = x) with
  | nil => rfl
  | cons first rest => simp [List.getLast?_cons]

namespace StateTable

/-- The table after some more declarations. -/
def declareAll (ds : List StateDeclaration) (t : StateTable) : StateTable :=
  ds.foldl (fun t d => (t.declare d.name d.initializer d.position).1) t

theorem declareAll_append (ds es : List StateDeclaration) (t : StateTable) :
    declareAll (ds ++ es) t = declareAll es (declareAll ds t) := List.foldl_append

theorem declareAll_cons (d : StateDeclaration) (ds : List StateDeclaration) (t : StateTable) :
    declareAll (d :: ds) t = declareAll ds (t.declare d.name d.initializer d.position).1 := rfl

theorem declareAll_concat (ds : List StateDeclaration) (d : StateDeclaration) (t : StateTable) :
    declareAll (ds ++ [d]) t = ((declareAll ds t).declare d.name d.initializer d.position).1 := by
  rw [declareAll_append]
  rfl

/-- **The names of a table** are in the order of their first declarations. -/
theorem names_declareAll (ds : List StateDeclaration) :
    (declareAll ds {}).names = (ds.map StateDeclaration.name).eraseDups := by
  induction ds using List.reverseRecOn with
  | nil => rfl
  | append_singleton ds d ih =>
    rw [declareAll_concat, names_declare, List.map_append, List.map_singleton, eraseDups_concat]
    simp only [has_iff_mem_names, ih, List.mem_eraseDups]

theorem has_declareAll {ds : List StateDeclaration} {x : Bytes} :
    (declareAll ds {}).has x ↔ x ∈ ds.map StateDeclaration.name := by
  rw [has_iff_mem_names, names_declareAll, List.mem_eraseDups]

/-- **What is found in a table** is what the declarations make of the name. -/
theorem lookup?_declareAll (ds : List StateDeclaration) (x : Bytes) :
    (declareAll ds {}).lookup? x = StateDeclaration.combined? x ds := by
  induction ds using List.reverseRecOn with
  | nil => rfl
  | append_singleton ds d ih =>
    rw [declareAll_concat, lookup?_declare, ih, StateDeclaration.combined?_concat]

/-- What declarations answer one after another. -/
def answers (t : StateTable) : List StateDeclaration → List Bool
  | [] => []
  | d :: ds =>
    let r := t.declare d.name d.initializer d.position
    r.2 :: answers r.1 ds

/-- **A declaration answers whether its name is among those in front of it.** -/
theorem answers_declareAll (before ds : List StateDeclaration) :
    answers (declareAll before {}) ds = ds.mapIdx fun i d =>
      decide (d.name ∈ (before ++ ds.take i).map StateDeclaration.name) := by
  induction ds generalizing before with
  | nil => rfl
  | cons d ds ih =>
    have hanswer : ((declareAll before {}).declare d.name d.initializer d.position).2 =
        decide (d.name ∈ before.map StateDeclaration.name) := by
      rw [snd_declare, Bool.eq_iff_iff, has_declareAll, decide_eq_true_iff]
    have hfront (i : Nat) : before ++ [d] ++ ds.take i = before ++ (d :: ds).take (i + 1) := by
      rw [List.take_succ_cons, List.append_assoc, List.singleton_append]
    rw [answers, ← declareAll_concat, ih, List.mapIdx_cons, hanswer, List.take_zero,
      List.append_nil]
    simp only [hfront]

/-- **A table is an ordered map in which the last initializer wins.** After any declarations, the
names are the different ones in the order in which they are declared first, and the index has their
places. A name is found exactly if it is declared, with the initializer of its last and the position
of its first declaration, and the declarations of the table are these entries in the order of the
names. Each declaration answers whether its name had been declared before. -/
theorem declareAll_lastWins (ds : List StateDeclaration) :
    let t := declareAll ds {}
    let names := (ds.map StateDeclaration.name).eraseDups
    t.names = names ∧ names.Nodup ∧ t.size = names.length ∧
    (∀ x i, Fields.get? x t.index = some i ↔ names[i]? = some x) ∧
    (∀ x, t.has x ↔ ∃ d ∈ ds, d.name = x) ∧
    (∀ x, t.lookup? x = StateDeclaration.combined? x ds) ∧
    t.declarations.map some = names.map (StateDeclaration.combined? · ds) ∧
    answers {} ds =
      ds.mapIdx fun i d => decide (d.name ∈ (ds.take i).map StateDeclaration.name) := by
  intro t names
  have hnames : t.names = names := names_declareAll ds
  refine ⟨hnames, hnames ▸ t.distinct, ?_, fun x i => ?_, fun x => ?_, lookup?_declareAll ds, ?_,
    answers_declareAll [] ds⟩
  · rw [← hnames, StateTable.names, List.length_map, size]
  · rw [← hnames, get?_index_iff]
  · rw [has_declareAll, List.mem_map]
  · rw [← hnames, StateTable.names, List.map_map]
    refine List.map_congr_left fun d hd => ?_
    rw [Function.comp_apply, ← lookup?_declareAll, lookup?_eq_some_iff.mpr ⟨hd, rfl⟩]

end StateTable

end LiveMarkup
