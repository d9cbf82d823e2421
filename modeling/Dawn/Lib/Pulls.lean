import Dawn.Lib.Returns

/-!
# Streams that are pulled

A stream is asked for its next element until it says that there is none. A call may also not return. `Pulls next s l s'`
says that the calls from `s` on give the elements of `l` and then the end; that determines the elements
(`Pulls.unique`).
-/

namespace Dawn

variable {σ α : Type} {next : σ → Option (Option α × σ)} {s s' t t' : σ} {l l' : List α}

/-- The calls from a state on give the elements of the list one after the other, and then say that there are no more. -/
def Pulls (next : σ → Option (Option α × σ)) : σ → List α → σ → Prop
  | s, [], s' => next s = some (none, s')
  | s, a :: l, s' => ∃ t, next s = some (some a, t) ∧ Pulls next t l s'

namespace Pulls

theorem congr (h : next s = next t) : Pulls next s l s' ↔ Pulls next t l s' := by
  cases l <;> simp only [Pulls, h]

theorem unique (h : Pulls next s l s') (h' : Pulls next s l' t') : l = l' ∧ s' = t' := by
  induction l generalizing s l' with
  | nil =>
    cases l' with
    | nil => exact ⟨rfl, (some_mk_inj (Eq.trans (Eq.symm h) h')).2⟩
    | cons b l' =>
      obtain ⟨u, hu, -⟩ := h'
      cases (some_mk_inj (Eq.trans (Eq.symm h) hu)).1
  | cons a l ih =>
    obtain ⟨u, hu, hl⟩ := h
    cases l' with
    | nil => cases (some_mk_inj (hu.symm.trans h')).1
    | cons b l' =>
      obtain ⟨v, hv, hl'⟩ := h'
      obtain ⟨hab, rfl⟩ := some_mk_inj (hu.symm.trans hv)
      obtain ⟨rfl, hs⟩ := ih hl hl'
      exact ⟨by rw [Option.some.inj hab], hs⟩

end Pulls

end Dawn
