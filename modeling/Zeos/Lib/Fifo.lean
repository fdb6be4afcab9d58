import Mathlib.Data.List.Basic

/-!
Bounded queues, and their layout in an array whose end is followed by its beginning.
-/

namespace Fifo

variable {α : Type}

def push (cap : Nat) (q : List α) (c : α) : List α :=
  if q.length < cap then q ++ [c] else q

def window (cells : Nat → α) (n r k : Nat) : List α :=
  (List.range k).map fun i => cells ((r + i) % n)

variable {cells : Nat → α} {n r k : Nat}

@[simp]
theorem window_zero : window cells n r 0 = [] := by
  rfl

theorem window_succ : window cells n r (k + 1) = window cells n r k ++ [cells ((r + k) % n)] := by
  simp [window, List.range_succ]

theorem window_succ_eq_cons
    : window cells n r (k + 1) = cells (r % n) :: window cells n (r + 1) k := by
  simp [window, List.range_succ_eq_map, Nat.add_assoc, Nat.add_comm 1]

theorem add_mod_ne {i : Nat} (hi : i < k) (hk : k < n) : (r + i) % n ≠ (r + k) % n := by
  intro heq
  have hdvd : n ∣ (r + k) - (r + i) :=
    Nat.dvd_of_mod_eq_zero (Nat.sub_mod_eq_zero_of_mod_eq heq.symm)
  have := Nat.le_of_dvd (by omega) hdvd
  omega

theorem window_set {c : α} (hk : k < n)
    : window (fun j => if j = (r + k) % n then c else cells j) n r k = window cells n r k := by
  unfold window
  apply List.map_congr_left
  intro i hi
  rw [List.mem_range] at hi
  simp [add_mod_ne hi hk]

end Fifo
