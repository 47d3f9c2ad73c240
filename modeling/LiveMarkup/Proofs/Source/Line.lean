import LiveMarkup.Source.Line
import Mathlib.Data.List.Basic

/-!
# The lines of a source

The lines that a text is written from are found again in it (`LiveMarkup.Bytes.splitOn_unlines`,
`LiveMarkup.Line.ofSource_intercalate`), unless they have line feeds of their own.

The numbers of the significant lines of a source increase, so no two of them have the same position.
The nodes of a source, which carry the positions of their lines, are known by them.
-/

namespace LiveMarkup

/-! ### Lines -/

namespace Bytes

/-- The text of some lines. -/
def unlines (ls : List Bytes) : Bytes := ls.flatMap fun l => l ++ [octet '\n']

theorem unlines_append (ls ms : List Bytes) : unlines (ls ++ ms) = unlines ls ++ unlines ms :=
  List.flatMap_append

theorem unlines_cons (l : Bytes) (ls : List Bytes) :
    unlines (l :: ls) = l ++ octet '\n' :: unlines ls := by
  rw [unlines, List.flatMap_cons, List.append_assoc]
  rfl

/-- **Lines are found again** by splitting their text. -/
theorem splitOn_unlines {ls : List Bytes} (h : ∀ l ∈ ls, octet '\n' ∉ l) :
    (unlines ls).splitOn (octet '\n') = ls ++ [[]] := by
  induction ls with
  | nil => rfl
  | cons l ls ih =>
    rw [List.forall_mem_cons] at h
    rw [unlines_cons, List.splitOn_append_cons_self_of_not_mem h.1, ih h.2, List.cons_append]

/-- The pieces have no separator. -/
theorem notMem_of_mem_splitOn {sep : UInt8} {s l : Bytes} (h : l ∈ s.splitOn sep) : sep ∉ l := by
  induction s generalizing l with
  | nil =>
    rw [List.splitOn_nil, List.mem_singleton] at h
    simp [h]
  | cons b s ih =>
    rw [List.splitOn_cons_eq_if_modifyHead] at h
    split at h
    · rcases List.mem_cons.mp h with rfl | h
      · simp
      · exact ih h
    · rename_i hb
      cases hs : s.splitOn sep with
      | nil => exact absurd hs (List.splitOn_ne_nil sep s)
      | cons w ws =>
        rw [hs, List.modifyHead_cons] at h
        rcases List.mem_cons.mp h with rfl | h
        · rw [List.mem_cons, not_or]
          exact ⟨fun heq => hb (by simp [heq]), ih (hs ▸ List.mem_cons_self)⟩
        · exact ih (hs ▸ List.mem_cons_of_mem w h)

theorem intercalate_concat (sep l w : Bytes) (ls : List Bytes) :
    sep.intercalate (l :: (ls ++ [w])) = sep.intercalate (l :: ls) ++ sep ++ w := by
  induction ls generalizing l with
  | nil => simp
  | cons m ls ih =>
    rw [List.cons_append, List.intercalate_cons_cons, ih m, List.intercalate_cons_cons]
    simp only [List.append_assoc]

end Bytes

namespace Line

/-! ### Significant lines -/

theorem ofRaws_append (number : Nat) (raws raws' : List Bytes) :
    ofRaws number (raws ++ raws') =
      ofRaws number raws ++ ofRaws (number + raws.length) raws' := by
  induction raws generalizing number with
  | nil => rfl
  | cons raw raws ih =>
    have hnumber : number + 1 + raws.length = number + (raws.length + 1) := by omega
    rw [List.cons_append, ofRaws, ofRaws, ih, hnumber, List.length_cons]
    cases ofRaw? number raw <;> rfl

/-- An empty line does not count. -/
theorem ofRaw?_nil (number : Nat) : ofRaw? number [] = none := by
  have htrim : Bytes.trim [] = [] := by
    rw [Bytes.trim, Bytes.trimStart, Bytes.trimEnd]
    rfl
  rw [ofRaw?, show Bytes.dropReturn [] = [] from rfl, htrim]
  rfl

/-- **The lines that a source is written from are its lines**, with a line feed after the last one
or without. -/
theorem ofSource_intercalate {ls : List Bytes} (h : ∀ l ∈ ls, octet '\n' ∉ l) {ending : Bytes}
    (hending : ending ∈ [[], utf8 "\n"]) :
    ofSource (List.intercalate (utf8 "\n") ls ++ ending) = ofRaws 1 ls := by
  have hempty (number : Nat) : ofRaws number [[]] = [] := by
    rw [ofRaws, ofRaw?_nil]
    rfl
  rw [List.mem_pair] at hending
  cases ls with
  | nil =>
    rcases hending with rfl | rfl
    · exact hempty 1
    · have hraws : ofRaws 1 ([[]] ++ [[]]) = [] := by
        rw [ofRaws_append, hempty, hempty]
        rfl
      exact hraws
  | cons l ls =>
    rcases hending with rfl | rfl
    · rw [List.append_nil, ofSource, show utf8 "\n" = [octet '\n'] from rfl,
        List.splitOn_intercalate _ h (List.cons_ne_nil l ls)]
    · have hconcat := Bytes.intercalate_concat [octet '\n'] l [] ls
      have hfeeds : ∀ m ∈ l :: (ls ++ [[]]), octet '\n' ∉ m := by
        rw [← List.cons_append]
        intro m hm
        rcases List.mem_append.mp hm with hm | hm
        · exact h m hm
        · simp [List.mem_singleton.mp hm]
      rw [List.append_nil] at hconcat
      rw [ofSource, show utf8 "\n" = [octet '\n'] from rfl, ← hconcat,
        List.splitOn_intercalate _ hfeeds (List.cons_ne_nil l _), ← List.cons_append, ofRaws_append,
        hempty, List.append_nil]

theorem number_of_ofRaw? {number : Nat} {raw : Bytes} {l : Line} (h : ofRaw? number raw = some l) :
    l.number = number := by
  rw [ofRaw?] at h
  split at h
  · cases h
    rfl
  · exact absurd h (by simp)

theorem le_number_of_mem_ofRaws {number : Nat} {raws : List Bytes} {l : Line}
    (h : l ∈ ofRaws number raws) : number ≤ l.number := by
  induction raws generalizing number with
  | nil => exact absurd h (by simp [ofRaws])
  | cons raw raws ih =>
    rw [ofRaws] at h
    split at h
    · rename_i l' hl'
      rcases List.mem_cons.mp h with rfl | h
      · exact Nat.le_of_eq (number_of_ofRaw? hl').symm
      · exact Nat.le_of_succ_le (ih h)
    · exact Nat.le_of_succ_le (ih h)

theorem ofRaws_pairwise (number : Nat) (raws : List Bytes) :
    (ofRaws number raws).Pairwise fun l m => l.number < m.number := by
  induction raws generalizing number with
  | nil => simp [ofRaws]
  | cons raw raws ih =>
    rw [ofRaws]
    split
    · rename_i l hl
      refine List.pairwise_cons.mpr ⟨fun m hm => ?_, ih (number + 1)⟩
      rw [number_of_ofRaw? hl]
      exact le_number_of_mem_ofRaws hm
    · exact ih (number + 1)

/-- **The significant lines of a source have distinct positions.** -/
theorem nodup_positions_ofSource (src : Bytes) : ((ofSource src).map position).Nodup := by
  refine List.pairwise_map.mpr ((ofRaws_pairwise 1 _).imp ?_)
  intro l m hlt heq
  have hnumber : (l.number : Int) = m.number := congrArg Position.line heq
  omega

end Line

end LiveMarkup
