import Mathlib.Data.List.Rotate
import Mathlib.Data.Nat.Periodic

/-!
Taking turns: the members of a list get `Q` ticks each, in a cyclic order that starts with the first one,
which has `left` ticks left.
-/

namespace Turns

def switches (Q left n : Nat) : Nat :=
  (n + (Q - left)) / Q

def remaining (Q left n : Nat) : Nat :=
  Q - (n + (Q - left)) % Q

variable {Q left n : Nat}

theorem switches_zero (hleft : 1 ≤ left) (hQ : left ≤ Q) : switches Q left 0 = 0 := by
  unfold switches
  apply Nat.div_eq_of_lt
  omega

theorem remaining_zero (hleft : 1 ≤ left) (hQ : left ≤ Q) : remaining Q left 0 = left := by
  unfold remaining
  rw [Nat.mod_eq_of_lt (by omega)]
  omega

theorem remaining_pos (hQ : 1 ≤ Q) : 1 ≤ remaining Q left n := by
  unfold remaining
  have := Nat.mod_lt (n + (Q - left)) hQ
  omega

theorem succ_of_remaining_eq_one (hQ : 1 ≤ Q) (h : remaining Q left n = 1)
    : switches Q left (n + 1) = switches Q left n + 1 ∧ remaining Q left (n + 1) = Q := by
  unfold switches remaining at *
  have hlt := Nat.mod_lt (n + (Q - left)) hQ
  have hdiv := Nat.div_add_mod (n + (Q - left)) Q
  have heq : n + 1 + (Q - left) = Q * ((n + (Q - left)) / Q + 1) := by
    rw [Nat.mul_add, Nat.mul_one]
    omega
  rw [heq, Nat.mul_div_cancel_left _ hQ, Nat.mul_mod_right]
  exact ⟨rfl, Nat.sub_zero Q⟩

theorem succ_of_remaining_ne_one (hQ : 1 ≤ Q) (h : remaining Q left n ≠ 1)
    : switches Q left (n + 1) = switches Q left n ∧
        remaining Q left (n + 1) + 1 = remaining Q left n := by
  unfold switches remaining at *
  have hlt := Nat.mod_lt (n + (Q - left)) hQ
  have hdiv := Nat.div_add_mod (n + (Q - left)) Q
  have heq : n + 1 + (Q - left) =
      ((n + (Q - left)) % Q + 1) + Q * ((n + (Q - left)) / Q) := by
    omega
  rw [heq, Nat.add_mul_div_left _ _ hQ, Nat.add_mul_mod_self_left, Nat.div_eq_of_lt (by omega),
    Nat.mod_eq_of_lt (by omega)]
  omega

theorem switches_of_lt (hQ : left ≤ Q) (hn : n < left) : switches Q left n = 0 := by
  unfold switches
  apply Nat.div_eq_of_lt
  omega

theorem switches_eq {i : Nat} (hQ : left ≤ Q) (hle : left + i * Q ≤ n) (hlt : n < left + (i + 1) * Q)
    : switches Q left n = i + 1 := by
  unfold switches
  apply Nat.div_eq_of_lt_le
  . rw [Nat.add_mul]
    omega
  . rw [Nat.add_mul, Nat.add_mul] at *
    omega

/--
The turn passes on with the tick `left`, and then every `Q` ticks.
-/
theorem remaining_eq_one_iff (hleft : 1 ≤ left) (hQ : left ≤ Q)
    : remaining Q left n = 1 ↔ ∃ i, n + 1 = left + i * Q := by
  unfold remaining
  have hlt := Nat.mod_lt (n + (Q - left)) (by omega : Q > 0)
  have hdiv := Nat.div_add_mod (n + (Q - left)) Q
  constructor
  . intro h
    refine ⟨(n + (Q - left)) / Q, ?_⟩
    rw [Nat.mul_comm]
    omega
  . rintro ⟨i, hi⟩
    have heq : n + (Q - left) = (Q - 1) + i * Q := by omega
    rw [heq, Nat.add_mul_mod_self_right, Nat.mod_eq_of_lt (by omega)]
    omega

section Share

variable {p j : Nat}

theorem count_div_mod (hj : j < p) (hQ : 1 ≤ Q) : (p * Q).count (fun x => x / Q % p = j) = Q := by
  rw [Nat.count_eq_card_filter_range]
  have heq : (Finset.range (p * Q)).filter (fun x => x / Q % p = j) =
      Finset.Ico (j * Q) (j * Q + Q) := by
    ext x
    simp only [Finset.mem_filter, Finset.mem_range, Finset.mem_Ico]
    constructor
    . rintro ⟨hx, hdiv⟩
      rw [Nat.mod_eq_of_lt (Nat.div_lt_of_lt_mul (by rwa [Nat.mul_comm]))] at hdiv
      subst hdiv
      have hmod := Nat.mod_lt x hQ
      have := Nat.div_add_mod x Q
      rw [Nat.mul_comm] at this
      omega
    . rintro ⟨hle, hlt⟩
      have hdiv : x / Q = j := by
        apply Nat.div_eq_of_lt_le hle
        rw [Nat.succ_mul]
        exact hlt
      refine ⟨?_, by rw [hdiv, Nat.mod_eq_of_lt hj]⟩
      have := Nat.mul_le_mul_right Q hj
      rw [Nat.succ_mul] at this
      omega
  rw [heq, Nat.card_Ico]
  omega

theorem count_shift {b : Nat → Prop} [DecidablePred b] {a : Nat} (hb : Function.Periodic b a) (d : Nat)
    : a.count (fun x => b (x + d)) = a.count b := by
  have hsum := Nat.count_add b d a
  have hsum' := Nat.count_add b a d
  have hperiodic : (fun k => b (a + k)) = b := by
    funext k
    rw [Nat.add_comm]
    exact hb k
  have hcomm : (fun k => b (d + k)) = fun k => b (k + d) := by
    funext k
    rw [Nat.add_comm]
  simp only [hcomm] at hsum
  simp only [hperiodic] at hsum'
  rw [Nat.add_comm d a] at hsum
  omega

/--
In any window of one round, each place of the cycle has its turn for `Q` ticks.
-/
theorem card_turn (hj : j < p) (hQ : 1 ≤ Q) (m : Nat)
    : ((Finset.Ico m (m + p * Q)).filter fun n => switches Q left n % p = j).card = Q := by
  have hb : Function.Periodic (fun x => x / Q % p = j) (p * Q) := by
    intro x
    dsimp only
    rw [Nat.add_mul_div_right _ _ hQ, Nat.add_mod_right]
  have hq : Function.Periodic (fun n => switches Q left n % p = j) (p * Q) := by
    intro n
    unfold switches
    dsimp only
    rw [Nat.add_right_comm]
    exact hb _
  rw [Nat.filter_Ico_card_eq_of_periodic _ _ _ hq]
  unfold switches
  rw [count_shift hb, count_div_mod hj hQ]

end Share

section Rotate

variable {α : Type} {l rs : List α} {c : α}

theorem rotate_succ {k : Nat} (h : l.rotate k = c :: rs) : l.rotate (k + 1) = rs ++ [c] := by
  rw [← List.rotate_rotate, h]
  simp

theorem head?_rotate_eq_some_iff (hnodup : l.Nodup) {j : Nat} (hj : j < l.length) (k : Nat)
    : (l.rotate k).head? = some l[j] ↔ k % l.length = j := by
  have hk : k % l.length < l.length := Nat.mod_lt _ (by omega)
  rw [← List.rotate_mod, List.head?_rotate hk, List.getElem?_eq_getElem hk, Option.some.injEq,
    hnodup.getElem_inj_iff]

theorem head?_rotate_succ_ne (hnodup : l.Nodup) (hlength : 1 < l.length) (k : Nat)
    : (l.rotate (k + 1)).head? ≠ (l.rotate k).head? := by
  have hk : k % l.length < l.length := Nat.mod_lt _ (by omega)
  have hhead : (l.rotate k).head? = some l[k % l.length] :=
    (head?_rotate_eq_some_iff hnodup hk k).mpr rfl
  rw [hhead, ne_eq, head?_rotate_eq_some_iff hnodup hk]
  intro heq
  rw [Nat.add_mod, Nat.mod_eq_of_lt hlength] at heq
  by_cases hlast : k % l.length + 1 = l.length
  . rw [hlast, Nat.mod_self] at heq
    omega
  . rw [Nat.mod_eq_of_lt (by omega)] at heq
    omega

end Rotate

end Turns
