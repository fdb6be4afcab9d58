import Mathlib.Data.BitVec
import Mathlib.Data.List.Nodup
import Mathlib.Logic.Function.Basic

/-!
Words of 32 bits, the lowest byte first, in a memory of bytes, and arrays of them.
-/

namespace Words

abbrev Memory := Nat → BitVec 8

def read (m : Memory) (a : Nat) : BitVec 32 :=
  m (a + 3) ++ m (a + 2) ++ m (a + 1) ++ m a

def write (a : Nat) (v : BitVec 32) (m : Memory) : Memory :=
  fun b => if a ≤ b ∧ b < a + 4 then v.extractLsb' (8 * (b - a)) 8 else m b

def modify (base i : Nat) (g : BitVec 32 → BitVec 32) (m : Memory) : Memory :=
  write (base + 4 * i) (g (read m (base + 4 * i))) m

def modifyAll (base : Nat) (l : List Nat) (g : Nat → BitVec 32 → BitVec 32) (m : Memory) : Memory :=
  l.foldl (fun m i => modify base i (g i) m) m

variable {m m' : Memory} {a b base i j : Nat} {v : BitVec 32} {g : BitVec 32 → BitVec 32} {l : List Nat}
  {f : Nat → BitVec 32 → BitVec 32}

theorem read_congr (h : ∀ i < 4, m' (a + i) = m (a + i)) : read m' a = read m a := by
  unfold read
  rw [h 3 (by omega), h 2 (by omega), h 1 (by omega), show m' a = m a from h 0 (by omega)]

theorem write_inside (h : i < 4) : write a v m (a + i) = v.extractLsb' (8 * i) 8 := by
  unfold write
  rw [if_pos (by omega), Nat.add_sub_cancel_left]

theorem write_outside (h : b < a ∨ a + 4 ≤ b) : write a v m b = m b := by
  unfold write
  rw [if_neg (by omega)]

theorem append_bytes (v : BitVec 32)
    : v.extractLsb' 24 8 ++ v.extractLsb' 16 8 ++ v.extractLsb' 8 8 ++ v.extractLsb' 0 8 = v := by
  ext k hk
  simp only [BitVec.getElem_append, BitVec.getElem_extractLsb']
  split
  . rw [Nat.zero_add, BitVec.getLsbD_eq_getElem]
  . split
    . rw [Nat.add_sub_cancel' (by omega), BitVec.getLsbD_eq_getElem]
    . split
      . rw [show 16 + (k - 8 - 8) = k by omega, BitVec.getLsbD_eq_getElem]
      . rw [show 24 + (k - 8 - 8 - 8) = k by omega, BitVec.getLsbD_eq_getElem]

@[simp]
theorem read_write : read (write a v m) a = v := by
  have h0 : write a v m a = v.extractLsb' 0 8 := write_inside (i := 0) (by omega)
  unfold read
  rw [write_inside (by omega), write_inside (by omega), write_inside (by omega), h0]
  exact append_bytes v

theorem read_write_of_disjoint (h : b + 4 ≤ a ∨ a + 4 ≤ b) : read (write a v m) b = read m b := by
  apply read_congr
  intro i hi
  exact write_outside (by omega)

theorem read_write_aligned (ha : a % 4 = 0) (hb : b % 4 = 0)
    : read (write a v m) b = if b = a then v else read m b := by
  split
  next heq => rw [heq, read_write]
  next hne => exact read_write_of_disjoint (by omega)

theorem read_update {w : BitVec 8} (h : b < a ∨ a + 4 ≤ b) : read (Function.update m b w) a = read m a := by
  apply read_congr
  intro i hi
  exact Function.update_of_ne (by omega) _ _

theorem read_modify : read (modify base i g m) (base + 4 * j) =
    if j = i then g (read m (base + 4 * j)) else read m (base + 4 * j) := by
  unfold modify
  split
  next heq => rw [heq, read_write]
  next hne => exact read_write_of_disjoint (by omega)

theorem modify_outside (h : b < base + 4 * i ∨ base + 4 * i + 4 ≤ b) : modify base i g m b = m b :=
  write_outside h

theorem modifyAll_cons : modifyAll base (i :: l) f m = modifyAll base l f (modify base i (f i) m) :=
  rfl

theorem read_modifyAll (h : l.Nodup) : read (modifyAll base l f m) (base + 4 * j) =
    if j ∈ l then f j (read m (base + 4 * j)) else read m (base + 4 * j) := by
  induction l generalizing m with
  | nil => rfl
  | cons i l ih =>
    rw [List.nodup_cons] at h
    rw [modifyAll_cons, ih h.2, read_modify]
    by_cases hji : j = i
    . subst hji
      rw [if_neg h.1, if_pos rfl, if_pos List.mem_cons_self]
    . simp [hji]

theorem modifyAll_outside (h : ∀ i ∈ l, b < base + 4 * i ∨ base + 4 * i + 4 ≤ b)
    : modifyAll base l f m b = m b := by
  induction l generalizing m with
  | nil => rfl
  | cons i l ih =>
    rw [modifyAll_cons, ih fun j hj => h j (List.mem_cons_of_mem i hj), modify_outside (h i List.mem_cons_self)]

end Words
