import LiveMarkup.Text.Bytes

/-!
# Fields in the order of their names

A finite map from names to values, kept as a list with strictly increasing names. Names are compared
octet by octet.

`LiveMarkup.Fields.get?` looks a name up, and `LiveMarkup.Fields.insert` binds it, replacing what it
was bound to. `LiveMarkup.Fields.get?_insert` says what an insertion does to every look-up.
-/

namespace LiveMarkup

/-- Whether one text comes before another, octet by octet; a shorter text comes before what it
begins. -/
def Bytes.before : Bytes → Bytes → Bool
  | _, [] => false
  | [], _ :: _ => true
  | a :: s, b :: t => if a = b then Bytes.before s t else a < b

/-- Bindings of names. -/
abbrev Fields (α : Type) := List (Bytes × α)

namespace Fields

variable {α : Type}

/-- The value of a name. -/
def get? (k : Bytes) : Fields α → Option α
  | [] => none
  | (k', v) :: r => if k' = k then some v else get? k r

/-- The fields with the name `k` bound to `v`. -/
def insert (k : Bytes) (v : α) : Fields α → Fields α
  | [] => [(k, v)]
  | (k', v') :: r =>
    if k' = k then (k, v) :: r
    else if k.before k' then (k, v) :: (k', v') :: r
    else (k', v') :: insert k v r

/-- The fields of a list of bindings, of which a later one replaces an earlier one. -/
def ofList (l : List (Bytes × α)) : Fields α :=
  l.foldl (fun fs f => insert f.1 f.2 fs) []

theorem get?_insert (k k' : Bytes) (v : α) (fs : Fields α) :
    get? k' (insert k v fs) = if k = k' then some v else get? k' fs := by
  induction fs with
  | nil => simp [insert, get?]
  | cons f r ih =>
    obtain ⟨k₀, v₀⟩ := f
    by_cases h : k₀ = k
    · subst h
      by_cases h' : k₀ = k' <;> simp [insert, get?, h']
    · by_cases hb : k.before k₀
      · simp [insert, get?, h, hb]
      · by_cases h' : k₀ = k'
        · subst h'
          simp [insert, get?, h, hb, Ne.symm h]
        · simp [insert, get?, h, hb, h', ih]

/-- A value that is found after some bindings is that of one of them, or was there before. -/
theorem mem_or_of_get?_foldl {k : Bytes} {v : α} {l : List (Bytes × α)} {fs : Fields α}
    (h : get? k (l.foldl (fun fs f => insert f.1 f.2 fs) fs) = some v) :
    (k, v) ∈ l ∨ get? k fs = some v := by
  induction l generalizing fs with
  | nil => exact Or.inr h
  | cons f l ih =>
    rcases ih h with hmem | hget
    · exact Or.inl (List.mem_cons_of_mem f hmem)
    · rw [get?_insert] at hget
      split at hget
      · rename_i hk
        obtain rfl := Option.some.inj hget
        exact Or.inl (hk ▸ List.mem_cons_self)
      · exact Or.inr hget

theorem mem_of_get?_ofList {k : Bytes} {v : α} {l : List (Bytes × α)}
    (h : get? k (ofList l) = some v) : (k, v) ∈ l :=
  (mem_or_of_get?_foldl h).resolve_right (by simp [get?])

theorem get?_foldl_eq_none_iff {k : Bytes} {l : List (Bytes × α)} {fs : Fields α} :
    get? k (l.foldl (fun fs f => insert f.1 f.2 fs) fs) = none ↔
      k ∉ l.map Prod.fst ∧ get? k fs = none := by
  induction l generalizing fs with
  | nil => simp
  | cons f l ih =>
    rw [List.foldl_cons, ih, get?_insert, List.map_cons, List.mem_cons]
    by_cases hk : f.1 = k
    · simp [hk]
    · simp [hk, Ne.symm hk]

theorem get?_ofList_eq_none_iff {k : Bytes} {l : List (Bytes × α)} :
    get? k (ofList l) = none ↔ k ∉ l.map Prod.fst := by
  rw [ofList, get?_foldl_eq_none_iff]
  simp [get?]

end Fields

end LiveMarkup
