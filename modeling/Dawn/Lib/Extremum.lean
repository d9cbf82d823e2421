import Mathlib.Order.Bounds.Basic
import Mathlib.Tactic

/-!
# The least of a list

What a loop finds that begins with some value and takes every value that comes before the one that it has. The order is
irreflexive and transitive, and need not be total: nothing may come before a value, and nothing after it.
-/

namespace Dawn

variable {α : Type*} {r : α → α → Prop} [DecidableRel r] {xs : List α} {acc x y : α}

/-- The value that the loop goes on with. -/
def pick (r : α → α → Prop) [DecidableRel r] (acc x : α) : α := if r x acc then x else acc

/-- The loop ends with one of the values. -/
theorem foldl_pick_mem (xs : List α) (acc : α) : xs.foldl (pick r) acc ∈ acc :: xs := by
  induction xs generalizing acc with
  | nil => exact List.mem_cons_self
  | cons x xs ih =>
    rcases List.mem_cons.mp (ih (pick r acc x)) with h | h
    · rw [List.foldl_cons, h, pick]
      split_ifs <;> simp
    · exact List.mem_cons_of_mem _ (List.mem_cons_of_mem _ h)

section Order

variable (hirr : ∀ a, ¬ r a a) (htrans : ∀ a b c, r a b → r b c → r a c)
include htrans

/-- The loop ends with the value that it began with, or one before it. -/
theorem foldl_pick_cases (xs : List α) (acc : α) :
    xs.foldl (pick r) acc = acc ∨ r (xs.foldl (pick r) acc) acc := by
  induction xs generalizing acc with
  | nil => exact Or.inl rfl
  | cons x xs ih =>
    rw [List.foldl_cons]
    have hrest := ih (pick r acc x)
    by_cases hx : r x acc
    · rw [pick, if_pos hx] at hrest ⊢
      exact Or.inr (hrest.elim (fun h => h.symm ▸ hx) fun h => htrans _ _ _ h hx)
    · rw [pick, if_neg hx] at hrest ⊢
      exact hrest

include hirr

theorem not_pick (hx : x = acc ∨ x = y) : ¬ r x (pick r acc y) := by
  intro h
  by_cases hy : r y acc
  · rw [pick, if_pos hy] at h
    rcases hx with rfl | rfl
    · exact hirr _ (htrans _ _ _ h hy)
    · exact hirr _ h
  · rw [pick, if_neg hy] at h
    rcases hx with rfl | rfl
    · exact hirr _ h
    · exact hy h

/-- None of the values comes before the one that the loop ends with. -/
theorem not_foldl_pick (hx : x ∈ acc :: xs) : ¬ r x (xs.foldl (pick r) acc) := by
  induction xs generalizing acc with
  | nil =>
    obtain rfl := List.mem_singleton.mp hx
    exact hirr x
  | cons y xs ih =>
    rw [List.foldl_cons]
    by_cases hfirst : x = acc ∨ x = y
    · -- The loop goes on with a value that does not come after this one.
      have hnot := not_pick hirr htrans hfirst
      rcases foldl_pick_cases htrans xs (pick r acc y) with h | h
      · rwa [h]
      · exact fun hend => hnot (htrans _ _ _ hend h)
    · obtain ⟨hacc, hy⟩ := not_or.mp hfirst
      refine ih (List.mem_cons_of_mem _ ?_)
      simpa [hacc, hy] using hx

/-- The loop keeps the value that it began with exactly if none of the others comes before it. -/
theorem foldl_pick_eq_iff : xs.foldl (pick r) acc = acc ↔ ∀ x ∈ xs, ¬ r x acc := by
  constructor
  · intro h x hx
    have hnot : ¬ r x (xs.foldl (pick r) acc) := not_foldl_pick hirr htrans (List.mem_cons_of_mem acc hx)
    rwa [h] at hnot
  · intro h
    rcases List.mem_cons.mp (foldl_pick_mem (r := r) xs acc) with he | hmem
    · exact he
    · exact (foldl_pick_cases htrans xs acc).resolve_right (h _ hmem)

end Order

/-- In a linear order the loop ends with the least value. -/
theorem isLeast_foldl_pick [LinearOrder α] (xs : List α) (acc : α) :
    IsLeast {x | x ∈ acc :: xs} (xs.foldl (pick (· < ·)) acc) :=
  ⟨foldl_pick_mem xs acc, fun _ hx => not_lt.mp (not_foldl_pick lt_irrefl (fun _ _ _ => lt_trans) hx)⟩

theorem IsLeast.tail [LinearOrder α] {a : α} (h : IsLeast {x | x ∈ acc :: xs} a)
    (hne : xs ≠ []) (hacc : ∀ x ∈ xs, x ≤ acc) : IsLeast {x | x ∈ xs} a := by
  refine ⟨?_, fun x hx => h.2 (List.mem_cons_of_mem _ hx)⟩
  rcases List.mem_cons.mp h.1 with rfl | hr
  · obtain ⟨x, hx⟩ := List.exists_mem_of_ne_nil xs hne
    exact le_antisymm (hacc x hx) (h.2 (List.mem_cons_of_mem _ hx)) ▸ hx
  · exact hr

end Dawn
