import Mathlib.Tactic

/-!
# Linked lists given by a successor function

The nodes of a linked list lie somewhere in a store, and each knows the next one; `stop` says that
there is none. `Linked next stop l` says that following `next` from the head of `l` visits `l` and then
stops. It depends on the links of the nodes in `l` only (`Linked.congr`), a suffix is linked
(`Linked.of_append`), and a node can be put at the end by changing the link of the last one
(`Linked.snoc`).
-/

namespace Dawn

variable {α : Type*}

/-- The first node of a list, or `stop`. -/
def headOr (stop : α) (l : List α) : α := l.head?.getD stop

@[simp] theorem headOr_nil (stop : α) : headOr stop [] = stop := rfl

@[simp] theorem headOr_cons (stop a : α) (l : List α) : headOr stop (a :: l) = a := rfl

theorem headOr_append_cons (stop a : α) (l l' : List α) : headOr stop (l ++ a :: l') = headOr stop (l ++ [a]) := by
  cases l <;> rfl

theorem headOr_mem {stop : α} {l : List α} (h : l ≠ []) : headOr stop l ∈ l := by
  cases l with
  | nil => exact absurd rfl h
  | cons a l => simp

theorem exists_first_not {P : α → Prop} {l : List α} (h : ¬ ∀ a ∈ l, P a) :
    ∃ pre a post, l = pre ++ a :: post ∧ (∀ b ∈ pre, P b) ∧ ¬ P a := by
  induction l with
  | nil => simp at h
  | cons b l ih =>
    by_cases hb : P b
    · obtain ⟨pre, a, post, rfl, hpre, ha⟩ := ih fun hl => h (List.forall_mem_cons.mpr ⟨hb, hl⟩)
      exact ⟨b :: pre, a, post, rfl, List.forall_mem_cons.mpr ⟨hb, hpre⟩, ha⟩
    · exact ⟨[], b, l, rfl, by simp, hb⟩

/-- Following `next` visits the nodes of the list in order and then reaches `stop`. -/
def Linked (next : α → α) (stop : α) : List α → Prop
  | [] => True
  | a :: l => next a = headOr stop l ∧ Linked next stop l

namespace Linked

variable {next next' : α → α} {stop : α} {a b : α} {l l' : List α}

theorem congr (h : Linked next stop l) (hn : ∀ a ∈ l, next' a = next a) : Linked next' stop l := by
  induction l with
  | nil => trivial
  | cons a l ih =>
    refine ⟨?_, ih h.2 fun b hb => hn b (List.mem_cons_of_mem a hb)⟩
    rw [hn a List.mem_cons_self, h.1]

theorem of_append (h : Linked next stop (l ++ l')) : Linked next stop l' := by
  induction l with
  | nil => exact h
  | cons a l ih => exact ih h.2

theorem next_eq (h : Linked next stop (l ++ a :: l')) : next a = headOr stop l' :=
  h.of_append.1

theorem snoc (h : Linked next stop (l ++ [a])) (hl : ∀ c ∈ l, next' c = next c)
    (ha : next' a = b) (hb : next' b = stop) : Linked next' stop (l ++ [a, b]) := by
  induction l with
  | nil => exact ⟨ha, hb, trivial⟩
  | cons c l ih =>
    refine ⟨?_, ih h.2 fun d hd => hl d (List.mem_cons_of_mem c hd)⟩
    rw [hl c List.mem_cons_self, h.1]
    cases l <;> rfl

end Linked

end Dawn
