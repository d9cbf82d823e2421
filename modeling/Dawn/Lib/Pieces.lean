import Mathlib.Tactic

/-!
# Cutting a list at a separator

The pieces of a list that end at each occurrence of a separator, and what is left after the last one,
when the list is read in parts: `pieces sep acc l` and `pending sep acc l` are the pieces that reading
`l` completes and the piece that it leaves open, where `acc` is what was open before.
-/

namespace Dawn

variable {α : Type*} [DecidableEq α] (sep : α)

/-- The pieces, each with its separator, that reading a list completes. -/
def pieces (acc : List α) : List α → List (List α)
  | [] => []
  | a :: l => if a = sep then (acc ++ [a]) :: pieces [] l else pieces (acc ++ [a]) l

/-- The piece that reading a list leaves open. -/
def pending (acc : List α) : List α → List α
  | [] => acc
  | a :: l => if a = sep then pending [] l else pending (acc ++ [a]) l

variable {sep}

theorem pieces_append (acc l l' : List α) :
    pieces sep acc (l ++ l') = pieces sep acc l ++ pieces sep (pending sep acc l) l' := by
  induction l generalizing acc with
  | nil => rfl
  | cons a l ih =>
    simp only [List.cons_append, pieces, pending]
    split_ifs
    · rw [ih, List.cons_append]
    · rw [ih]

theorem pending_append (acc l l' : List α) : pending sep acc (l ++ l') = pending sep (pending sep acc l) l' := by
  induction l generalizing acc with
  | nil => rfl
  | cons a l ih =>
    simp only [List.cons_append, pending]
    split_ifs <;> exact ih _

theorem length_pieces (acc l : List α) : (pieces sep acc l).length = l.count sep := by
  induction l generalizing acc with
  | nil => rfl
  | cons a l ih =>
    by_cases h : a = sep
    · simp [pieces, ih, h]
    · simp [pieces, ih, h]

theorem pieces_of_notMem (acc : List α) {l : List α} (h : sep ∉ l) :
    pieces sep acc l = [] ∧ pending sep acc l = acc ++ l := by
  induction l generalizing acc with
  | nil => simp [pieces, pending]
  | cons a l ih =>
    rw [List.mem_cons, not_or] at h
    obtain ⟨h1, h2⟩ := ih (acc ++ [a]) h.2
    simp only [pieces, pending, if_neg (Ne.symm h.1)]
    exact ⟨h1, by rw [h2, List.append_assoc]; rfl⟩

end Dawn
