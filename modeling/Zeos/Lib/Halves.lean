import Zeos.Lib.Block
import Mathlib.Data.BitVec

/-!
Words of 16 bits, the lowest byte first, in a memory of bytes, and rows of them such as a stack that grows
towards lower addresses.
-/

namespace Halves

abbrev Memory := Nat → BitVec 8

def read (m : Memory) (a : Nat) : BitVec 16 :=
  m (a + 1) ++ m a

def write (a : Nat) (v : BitVec 16) (m : Memory) : Memory :=
  Block.put a 2 (fun i => v.extractLsb' (8 * i) 8) m

/-- The words stand one behind the other, the first one at `a`. -/
def Row (m : Memory) (a : Nat) (vs : List (BitVec 16)) : Prop :=
  match vs with
  | [] => True
  | v :: vs => read m a = v ∧ Row m (a + 2) vs

variable {m m' : Memory} {a b : Nat} {v : BitVec 16} {vs : List (BitVec 16)}

theorem read_congr (h : ∀ i < 2, m' (a + i) = m (a + i)) : read m' a = read m a := by
  unfold read
  rw [h 1 (by omega), show m' a = m a from h 0 (by omega)]

theorem toNat_read (m : Memory) (a : Nat) : (read m a).toNat = (m a).toNat + 256 * (m (a + 1)).toNat := by
  unfold read
  rw [BitVec.toNat_append, ← Nat.shiftLeft_add_eq_or_of_lt (m a).isLt, Nat.shiftLeft_eq]
  omega

theorem write_outside (h : b < a ∨ a + 2 ≤ b) : write a v m b = m b :=
  Block.put_outside h

theorem append_bytes (v : BitVec 16) : v.extractLsb' 8 8 ++ v.extractLsb' 0 8 = v := by
  ext k hk
  simp only [BitVec.getElem_append, BitVec.getElem_extractLsb']
  split
  . rw [Nat.zero_add, BitVec.getLsbD_eq_getElem]
  . rw [Nat.add_sub_cancel' (by omega), BitVec.getLsbD_eq_getElem]

@[simp]
theorem read_write : read (write a v m) a = v := by
  have h0 : write a v m (a + 0) = v.extractLsb' 0 8 := Block.put_inside (by omega)
  have h1 : write a v m (a + 1) = v.extractLsb' 8 8 := Block.put_inside (by omega)
  rw [Nat.add_zero] at h0
  unfold read
  rw [h0, h1]
  exact append_bytes v

theorem read_write_of_disjoint (h : b + 2 ≤ a ∨ a + 2 ≤ b) : read (write a v m) b = read m b := by
  apply read_congr
  intro i hi
  exact write_outside (by omega)

namespace Row

theorem congr (h : Row m a vs) (hm : ∀ b, a ≤ b → b < a + 2 * vs.length → m' b = m b) : Row m' a vs := by
  induction vs generalizing a with
  | nil => trivial
  | cons v vs ih =>
    rw [List.length_cons] at hm
    obtain ⟨hv, hvs⟩ := h
    constructor
    . rw [← hv]
      exact read_congr fun i hi => hm _ (by omega) (by omega)
    . exact ih hvs fun b hle hlt => hm b (by omega) (by omega)

theorem cons (h : Row m (a + 2) vs) : Row (write a v m) a (v :: vs) :=
  ⟨read_write, h.congr fun _ hle _ => write_outside (by omega)⟩

theorem drop {ws : List (BitVec 16)} (h : Row m a (ws ++ vs)) : Row m (a + 2 * ws.length) vs := by
  induction ws generalizing a with
  | nil => exact h
  | cons w ws ih =>
    have hrest := ih h.2
    rw [List.length_cons, show a + 2 * (ws.length + 1) = a + 2 + 2 * ws.length by omega]
    exact hrest

theorem read_eq {i : Nat} (h : Row m a vs) (hi : vs[i]? = some v) : read m (a + 2 * i) = v := by
  induction vs generalizing a i with
  | nil => cases hi
  | cons w vs ih =>
    cases i with
    | zero =>
      cases hi
      exact h.1
    | succ i =>
      rw [show a + 2 * (i + 1) = a + 2 + 2 * i by omega]
      exact ih h.2 hi

end Row

end Halves
