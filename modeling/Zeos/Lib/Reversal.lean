import Mathlib.Data.List.Basic

/-!
Reversal of a list in place: its ends are exchanged, and then those of what is between them.
-/

namespace Reversal

variable {α : Type} {xs ys : List α} {k : Nat}

/--
`ys` is `xs` after `k` exchanges, which have brought the outer `k` elements of both sides to their places.
-/
def Exchanged (xs : List α) (k : Nat) (ys : List α) : Prop :=
  ∃ u mid w, u.length = k ∧ w.length = k ∧ ys = u ++ mid ++ w ∧
    xs.reverse = u ++ mid.reverse ++ w

namespace Exchanged

theorem zero (xs : List α) : Exchanged xs 0 xs := by
  exact ⟨[], xs, [], rfl, rfl, by simp, by simp⟩

theorem length_eq (h : Exchanged xs k ys) : ys.length = xs.length := by
  obtain ⟨u, mid, w, -, -, rfl, hxs⟩ := h
  have hlen := congrArg List.length hxs
  simp only [List.length_reverse, List.length_append] at hlen ⊢
  omega

theorem swap (h : Exchanged xs k ys) (hk : k < xs.length / 2)
    : ∃ c d, ys[k]? = some c ∧ ys[xs.length - k - 1]? = some d ∧
        Exchanged xs (k + 1) ((ys.set k d).set (xs.length - k - 1) c) := by
  have hlen := h.length_eq
  obtain ⟨u, mid, w, rfl, hw, rfl, hxs⟩ := h
  simp only [List.length_append, hw] at hlen
  cases mid with
  | nil =>
    rw [List.length_nil] at hlen
    omega
  | cons c mid =>
    rcases List.eq_nil_or_concat mid with rfl | ⟨mid, d, rfl⟩
    . rw [List.length_singleton] at hlen
      omega
    . rw [List.concat_eq_append] at *
      simp only [List.length_cons, List.length_append, List.length_nil] at hlen
      have hlast : xs.length - u.length - 1 = (u ++ c :: mid).length := by
        simp only [List.length_append, List.length_cons]
        omega
      have hys : u ++ c :: (mid ++ [d]) ++ w = (u ++ c :: mid) ++ d :: w := by simp
      have hset : (u ++ c :: mid ++ d :: w).set u.length d = (u ++ d :: mid) ++ d :: w := by simp
      have hlast' : xs.length - u.length - 1 = (u ++ d :: mid).length := by
        simpa using hlast
      refine ⟨c, d, ?_, ?_, u ++ [d], mid, c :: w, ?_, ?_, ?_, ?_⟩
      . simp
      . rw [hlast, hys]
        simp
      . simp
      . simp [hw]
      . rw [hys, hset, hlast']
        simp
      . rw [hxs]
        simp

theorem eq_reverse (h : Exchanged xs k ys) (hk : ¬k < xs.length / 2) : ys = xs.reverse := by
  have hlen := h.length_eq
  obtain ⟨u, mid, w, hu, hw, rfl, hxs⟩ := h
  simp only [List.length_append, hu, hw] at hlen
  have hmid : mid.reverse = mid := by
    match mid, hlen with
    | [], _ => rfl
    | [c], _ => rfl
    | c :: d :: mid, hlen =>
      simp only [List.length_cons] at hlen
      omega
  rw [hxs, hmid]

end Exchanged

end Reversal
