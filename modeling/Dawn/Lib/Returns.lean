import Mathlib.Logic.Basic

/-!
# Calls that return

A call that may not return has its result in `Option`, and a function that makes several calls is a `do` block. These
are the rules for the block: it goes on with what the first call returns (`some_bind`), it returns when all its calls do
(`bind_eq_some`), and what it returns, a result with a state, is determined (`some_mk_inj`).
-/

namespace Dawn

variable {α β : Type} {x : Option α} {f : α → Option β} {a a' : α} {b b' : β}

theorem some_bind : (some a >>= f) = f a := rfl

theorem bind_eq_some : x >>= f = some b ↔ ∃ a, x = some a ∧ f a = some b := Option.bind_eq_some_iff

theorem some_mk_inj (h : some (a, b) = some (a', b')) : a = a' ∧ b = b' := Prod.mk.inj (Option.some.inj h)

end Dawn
