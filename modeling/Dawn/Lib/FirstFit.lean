import Mathlib.Algebra.BigOperators.Group.List.Basic
import Mathlib.Algebra.Order.Group.Int
import Mathlib.Data.Set.Card
import Mathlib.Order.Lattice.Nat

/-!
# First fit

A sequence of pages with slots. A value goes into the first empty slot of the first page that has room,
and into a new page where none has (`firstFit`). A search goes through the pages in order and gives up
at a page without values (`lookup`).
-/

namespace Dawn

variable {α : Type}

/-- What the slots of a page hold. -/
abbrev Slots (α : Type) := ℕ → Option α

namespace Slots

/-- The page without values. -/
def blank : Slots α := fun _ => none

/-- How many slots hold a value. -/
noncomputable def size (c : Slots α) : ℕ := Set.ncard {k | c k ≠ none}

/-- The page with a value in its first empty slot. -/
noncomputable def add (c : Slots α) (a : α) : Slots α :=
  Function.update c (sInf {k | c k = none}) (some a)

open Classical in
/-- The value in the first slot that holds one with the property. -/
noncomputable def find (P : α → Prop) (c : Slots α) : Option α :=
  if h : ∃ k, ∃ a, c k = some a ∧ P a then c (Nat.find h) else none

variable {c : Slots α} {P : α → Prop} {a : α} {k : ℕ}

@[simp] theorem size_blank : (blank : Slots α).size = 0 := by
  simp [size, blank]

theorem add_eq (hk : c k = none) (hlt : ∀ n < k, c n ≠ none) : c.add a = Function.update c k (some a) := by
  have hinf : sInf {k | c k = none} = k := by
    refine le_antisymm (Nat.sInf_le hk) ?_
    by_contra h
    exact hlt _ (by omega) (Nat.sInf_mem (s := {k | c k = none}) ⟨k, hk⟩)
  rw [add, hinf]

theorem find_eq (hk : c k = some a) (hP : P a) (hlt : ∀ n < k, ∀ b, c n = some b → ¬ P b) : c.find P = some a := by
  classical
  have h : ∃ k, ∃ a, c k = some a ∧ P a := ⟨k, a, hk, hP⟩
  have hf : Nat.find h = k := by
    rw [Nat.find_eq_iff]
    exact ⟨⟨a, hk, hP⟩, fun n hn ⟨b, hb, hPb⟩ => hlt n hn b hb hPb⟩
  rw [find, dif_pos h, hf, hk]

theorem find_eq_none (h : ∀ k a, c k = some a → ¬ P a) : c.find P = none := by
  rw [find, dif_neg]
  rintro ⟨k, a, hk, hP⟩
  exact h k a hk hP

theorem find_ne_none (hk : c k = some a) (hP : P a) : c.find P ≠ none := by
  classical
  have h : ∃ k, ∃ a, c k = some a ∧ P a := ⟨k, a, hk, hP⟩
  obtain ⟨b, hb, -⟩ := Nat.find_spec h
  rw [find, dif_pos h, hb]
  exact Option.some_ne_none b

theorem add_ne_blank (c : Slots α) (a : α) : c.add a ≠ blank := by
  intro h
  have := congrFun h (sInf {k | c k = none})
  rw [add, Function.update_self] at this
  cases this

theorem find_add (h : ∀ k b, c k = some b → ¬ P b) (hP : P a) : (c.add a).find P = some a := by
  refine find_eq (k := sInf {k | c k = none}) (by rw [add, Function.update_self]) hP fun n hn b hb => ?_
  rw [add, Function.update_of_ne hn.ne] at hb
  exact h n b hb

end Slots

/-- The pages with one value more, in the first page that has room. -/
noncomputable def firstFit (cap : ℤ) (a : α) : List (Slots α) → List (Slots α)
  | [] => [Slots.blank.add a]
  | c :: rest => if cap ≤ c.size then c :: firstFit cap a rest else c.add a :: rest

open Classical in
/-- The first value with the property, in the pages before one without values. -/
noncomputable def lookup (P : α → Prop) : List (Slots α) → Option α
  | [] => none
  | c :: rest => if c = Slots.blank then none else (c.find P).or (lookup P rest)

variable {cap : ℤ} {a : α} {c : Slots α} {l pre post : List (Slots α)} {P : α → Prop}

theorem firstFit_append (hpre : ∀ c ∈ pre, cap ≤ c.size) (post : List (Slots α)) :
    firstFit cap a (pre ++ post) = pre ++ firstFit cap a post := by
  induction pre with
  | nil => rfl
  | cons c pre ih =>
    rw [List.cons_append, firstFit, if_pos (hpre c List.mem_cons_self),
      ih fun d hd => hpre d (List.mem_cons_of_mem c hd), List.cons_append]

theorem firstFit_of_lt (h : (c.size : ℤ) < cap) : firstFit cap a (c :: post) = c.add a :: post := by
  rw [firstFit, if_neg (not_le.mpr h)]

theorem lookup_firstFit (hcap : 0 < cap) (h : lookup P l = none) (hP : P a) : lookup P (firstFit cap a l) = some a := by
  induction l with
  | nil =>
    rw [firstFit, lookup, if_neg (Slots.add_ne_blank _ _),
      Slots.find_add (fun k b hb => by cases hb) hP, Option.some_or]
  | cons c rest ih =>
    rw [firstFit]
    split_ifs with hfull
    · -- A full page is not blank, so the search goes on behind it.
      have hne : c ≠ Slots.blank := by
        rintro rfl
        rw [Slots.size_blank] at hfull
        omega
      rw [lookup, if_neg hne, Option.or_eq_none_iff] at h
      rw [lookup, if_neg hne, h.1, Option.none_or]
      exact ih h.2
    · have hno : ∀ k b, c k = some b → ¬ P b := by
        intro k b hb hPb
        rw [lookup] at h
        split_ifs at h with hblank
        · rw [hblank] at hb
          cases hb
        · rw [Option.or_eq_none_iff] at h
          exact Slots.find_ne_none hb hPb h.1
      rw [lookup, if_neg (Slots.add_ne_blank _ _), Slots.find_add hno hP, Option.some_or]

end Dawn
