import LiveMarkup.Document.Generate

/-!
# The marks on a generated element

A generated element is marked by its attributes: `LiveMarkup.handlerMark` carries the number of an
element with handlers, and `LiveMarkup.bindingMark` the name of a placeholder. Both are reserved, so
that a source cannot set them, in whatever case the letters are.

`LiveMarkup.Document.filter_attributes` says which attributes with keys of some kind an element has
when the source sets none of that kind: the number, once, if the kind includes the mark for handlers
and the element has one, and none otherwise. The two marks are its instances.
-/

namespace LiveMarkup

/-- The attributes whose key is a mark, but for the case of letters. -/
def Attribute.marks (mark : Bytes) (as : List Attribute) : List Attribute :=
  as.filter fun a => sameFolded a.key mark

section Kind

variable {p : Bytes → Bool}

/-- Setting an attribute is seen among the keys of a kind exactly if its key is one of them. -/
theorem Attribute.filter_set (key value : Bytes) (as : List Attribute) :
    (set key value as).filter (fun a => p a.key) =
      if p key then set key value (as.filter fun a => p a.key) else as.filter fun a => p a.key := by
  induction as with
  | nil => cases hp : p key <;> simp [set, hp]
  | cons a as ih =>
    rw [set]
    by_cases hkey : a.key = key
    · subst hkey
      cases hp : p a.key <;> simp [set, hp]
    · rw [if_neg hkey]
      cases ha : p a.key
      · rw [List.filter_cons_of_neg (by simp [ha]), ih, List.filter_cons_of_neg (by simp [ha])]
      · rw [List.filter_cons_of_pos (by simp [ha]), ih, List.filter_cons_of_pos (by simp [ha])]
        cases p key
        · rfl
        · simp [set, hkey]

namespace Document

theorem filter_appendScript {key : Bytes} (hp : p key = false) (value : Bytes)
    (as : List Attribute) :
    (appendScript key value as).filter (fun a => p a.key) = as.filter fun a => p a.key := by
  induction as with
  | nil => simp [appendScript, hp]
  | cons a as ih =>
    rw [appendScript]
    split
    · rename_i hkey
      simp [hkey, hp]
    · rw [List.filter_cons, ih, List.filter_cons]

section Handlers

variable (hon : ∀ event, p (utf8 "on" ++ event) = false)

include hon

/-- **The number is set once**, however many handlers there are: `seen` is whether it is there
already. -/
theorem filter_foldl_addHandler (id : Nat) (hs : List Handler) (as : List Attribute) (seen : Bool)
    (h : as.filter (fun a => p a.key) = if seen then [⟨handlerMark, decimalNat id⟩] else []) :
    (hs.foldl (addHandler id) as).filter (fun a => p a.key) =
      if seen || (p handlerMark && hs.any Handler.isCompiled) then
        [⟨handlerMark, decimalNat id⟩] else [] := by
  induction hs generalizing as seen with
  | nil => simpa using h
  | cons a hs ih =>
    rw [List.foldl_cons]
    cases hc : a.isCompiled with
    | false =>
      -- The browser carries the handler out: its key starts with `on` and is of no such kind.
      have hstep : (addHandler id as a).filter (fun a => p a.key) =
          as.filter fun a => p a.key := by
        rw [addHandler, if_neg (by simp [hc]), filter_appendScript (hon a.event)]
      rw [ih _ seen (hstep.trans h), List.any_cons, hc, Bool.false_or]
    | true =>
      have hstep : (addHandler id as a).filter (fun a => p a.key) =
          if seen || p handlerMark then [⟨handlerMark, decimalNat id⟩] else [] := by
        rw [addHandler, if_pos hc, Attribute.filter_set, h]
        cases seen <;> cases p handlerMark <;> simp [Attribute.set]
      rw [ih _ _ hstep, List.any_cons, hc]
      cases seen <;> cases p handlerMark <;> simp

/-- **The attributes of some kind** on an element whose source sets none of that kind. -/
theorem filter_attributes (hclass : p (utf8 "class") = false) (hstyle : p (utf8 "style") = false)
    {e : Element} (hkeys : ∀ a ∈ e.attributes, p a.key = false) (id : Nat) :
    (attributes id e).filter (fun a => p a.key) =
      if p handlerMark && e.isLive then [⟨handlerMark, decimalNat id⟩] else [] := by
  have hset (as bs : List Attribute) (hbs : ∀ b ∈ bs, p b.key = false)
      (has : as.filter (fun a => p a.key) = []) :
      (bs.foldl (fun as b => Attribute.set b.key b.value as) as).filter (fun a => p a.key) =
        [] := by
    induction bs generalizing as with
    | nil => exact has
    | cons b bs ih =>
      refine ih _ (fun c hc => hbs c (List.mem_cons_of_mem b hc)) ?_
      rw [Attribute.filter_set, if_neg (by simp [hbs b List.mem_cons_self]), has]
  rw [attributes, filter_foldl_addHandler hon id e.handlers _ false]
  · rw [Bool.false_or, Element.isLive]
  · -- What is there before the handlers comes from the classes, the source and the style.
    split
    · refine hset _ _ hkeys ?_
      split <;> simp [hclass]
    · rw [Attribute.filter_set, if_neg (by simp [hstyle])]
      refine hset _ _ hkeys ?_
      split <;> simp [hclass]

end Handlers

end Document

end Kind

namespace Document

/-- **An element has its number exactly once** if the script has a handler for it, and no number in
any spelling if not. -/
theorem marks_handler {e : Element} (hkeys : ∀ a ∈ e.attributes, isReserved a.key = false)
    (id : Nat) : Attribute.marks handlerMark (attributes id e) =
      if e.isLive then [⟨handlerMark, decimalNat id⟩] else [] := by
  have hself : sameFolded handlerMark handlerMark = true := by decide
  have h := filter_attributes (p := fun k => sameFolded k handlerMark) (fun _ => rfl) (by decide)
    (by decide) (e := e) (fun a ha => (Bool.or_eq_false_iff.mp (hkeys a ha)).2) id
  rw [hself, Bool.true_and] at h
  exact h

/-- **No element of a source is marked as a placeholder.** -/
theorem marks_binding {e : Element} (hkeys : ∀ a ∈ e.attributes, isReserved a.key = false)
    (id : Nat) : Attribute.marks bindingMark (attributes id e) = [] := by
  have hother : sameFolded handlerMark bindingMark = false := by decide
  have h := filter_attributes (p := fun k => sameFolded k bindingMark) (fun _ => rfl) (by decide)
    (by decide) (e := e) (fun a ha => (Bool.or_eq_false_iff.mp (hkeys a ha)).1) id
  rw [hother, Bool.false_and] at h
  exact h

end Document

end LiveMarkup
