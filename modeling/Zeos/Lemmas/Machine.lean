import Zeos.Impl.Switch

/-!
Where the stack pointer goes, and which words of the kernel stacks an instruction leaves alone.
-/

namespace Zeos

open Descending

section Leftovers

variable {s : Stack} {b t : Word} {i n : Nat} {below : Word → Word}

theorem not_below (hb : Aligned b) (ht : Aligned t) (h : s.esp = wordAt b n) (hn : n < kernelStackSize)
    (hi : i < kernelStackSize) (hout : t = b → i < taskStructWords ∨ n ≤ i) : ¬Below s (wordAt t i) := by
  rintro ⟨hle, hlt⟩
  rw [h, hb.page_wordAt hn, ht.toNat_wordAt hi] at hle
  rw [h, hb.toNat_wordAt hn, ht.toNat_wordAt hi] at hlt
  unfold taskStructWords kernelStackSize at *
  by_cases heq : t = b
  . have := hout heq
    subst heq
    omega
  . have hne : t.toNat ≠ b.toNat := fun hnat => heq (BitVec.eq_of_toNat_eq hnat)
    unfold Aligned at hb ht
    omega

theorem mem_leaveBelow (hb : Aligned b) (ht : Aligned t) (h : s.esp = wordAt b n)
    (hn : n < kernelStackSize) (hi : i < kernelStackSize)
    (hout : t = b → i < taskStructWords ∨ n ≤ i)
    : (leaveBelow below s).mem (wordAt t i) = s.mem (wordAt t i) :=
  if_neg (not_below hb ht h hn hi hout)

end Leftovers

namespace Machine

variable {m : Machine} {b t v : Word} {i k n : Nat}

theorem current_eq (hb : Aligned b) (h : m.esp = wordAt b n) (hn : n < kernelStackSize)
    : m.current = b := by
  unfold current
  rw [h]
  exact hb.page_wordAt hn

theorem wordAt_succ (b : Word) (n : Nat) : wordAt b n + 4#32 = wordAt b (n + 1) :=
  wordAt_add b n 1

theorem wordAt_add_two (b : Word) (n : Nat) : wordAt b n + 8#32 = wordAt b (n + 2) :=
  wordAt_add b n 2

theorem mem_store (hb : Aligned b) (ht : Aligned t) (hi : i < kernelStackSize)
    (hk : k < kernelStackSize)
    : (m.store (wordAt b k) v).mem (wordAt t i) = if t = b ∧ i = k then v else m.mem (wordAt t i) := by
  unfold store
  dsimp only
  rw [Function.update_apply]
  simp only [wordAt_inj ht hb hi hk]

theorem mem_store_page (hb : Aligned b) (hi : i < kernelStackSize) (hk : k < kernelStackSize)
    : (m.store (wordAt b k) v).mem (wordAt b i) = if i = k then v else m.mem (wordAt b i) := by
  rw [mem_store hb hb hi hk]
  simp

end Machine

end Zeos
