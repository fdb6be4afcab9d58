import Mathlib.Logic.Function.Basic

/-!
Memory as a function of natural numbers, in which a block of places is replaced at once.
-/

namespace Block

variable {β : Type}

def put (base n : Nat) (f m : Nat → β) : Nat → β :=
  fun a => if base ≤ a ∧ a < base + n then f (a - base) else m a

variable {base n k a i : Nat} {f m : Nat → β}

theorem put_inside (h : i < n) : put base n f m (base + i) = f i := by
  unfold put
  rw [if_pos (by omega), Nat.add_sub_cancel_left]

theorem put_outside (h : a < base ∨ base + n ≤ a) : put base n f m a = m a := by
  unfold put
  rw [if_neg (by omega)]

@[simp]
theorem put_zero : put base 0 f m = m := by
  funext a
  exact put_outside (by omega)

theorem put_congr {g : Nat → β} (h : ∀ i < n, f i = g i) : put base n f m = put base n g m := by
  funext a
  unfold put
  split
  next hin => exact h _ (by omega)
  next => rfl

theorem put_put : put (base + n) k (fun i => f (n + i)) (put base n f m) = put base (n + k) f m := by
  funext a
  unfold put
  by_cases hlt : a < base + n
  . rw [if_neg (by omega)]
    by_cases hle : base ≤ a
    . rw [if_pos ⟨hle, hlt⟩, if_pos (by omega)]
    . rw [if_neg (by omega), if_neg (by omega)]
  . by_cases hin : a < base + (n + k)
    . rw [if_pos (by omega), if_pos (by omega)]
      exact congrArg f (by omega)
    . rw [if_neg (by omega), if_neg (by omega), if_neg (by omega)]

end Block
