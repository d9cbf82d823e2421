import Mathlib.Tactic

/-!
# Traces of a labelled transition relation

A trace is a finite run of a system with the labels of its steps: the operations that were called and
what they returned. An invariant of every step is an invariant of every trace (`Trace.invariant`), and
where every step of one system is matched by a step of another with the same label, every trace is
(`Trace.simulate`).
-/

namespace Dawn

variable {σ α ℓ : Type*}

/-- The runs of `step` from one state to another, with their labels. -/
inductive Trace (step : σ → ℓ → σ → Prop) : σ → List ℓ → σ → Prop
  | nil (s : σ) : Trace step s [] s
  | cons {s s' s'' : σ} {l : ℓ} {ls : List ℓ} (h : step s l s') (t : Trace step s' ls s'') :
    Trace step s (l :: ls) s''

namespace Trace

variable {step : σ → ℓ → σ → Prop} {s s' s'' : σ} {ls ls' : List ℓ} {l : ℓ}

theorem single (h : step s l s') : Trace step s [l] s' := cons h (nil s')

theorem append (h : Trace step s ls s') (h' : Trace step s' ls' s'') : Trace step s (ls ++ ls') s'' := by
  induction h with
  | nil => exact h'
  | cons hs _ ih => exact cons hs (ih h')

theorem snoc (h : Trace step s ls s') (h' : step s' l s'') : Trace step s (ls ++ [l]) s'' :=
  h.append (single h')

theorem invariant {P : σ → Prop} (hstep : ∀ s l s', P s → step s l s' → P s')
    (h : Trace step s ls s') (h0 : P s) : P s' := by
  induction h with
  | nil => exact h0
  | cons hs _ ih => exact ih (hstep _ _ _ h0 hs)

theorem simulate {astep : α → ℓ → α → Prop} {R : σ → α → Prop}
    (hstep : ∀ s a l s', R s a → step s l s' → ∃ a', astep a l a' ∧ R s' a')
    (h : Trace step s ls s') {a : α} (h0 : R s a) : ∃ a', Trace astep a ls a' ∧ R s' a' := by
  induction h generalizing a with
  | nil => exact ⟨a, nil a, h0⟩
  | cons hs _ ih =>
    obtain ⟨a', ha, hR⟩ := hstep _ _ _ _ h0 hs
    obtain ⟨a'', ht, hR'⟩ := ih hR
    exact ⟨a'', cons ha ht, hR'⟩

end Trace

end Dawn
