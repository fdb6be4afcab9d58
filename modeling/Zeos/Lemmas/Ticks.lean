import Mathlib.Tactic.Ring
import Zeos.Impl.Ticks

/-!
`do_div` divides in two steps, and its `divl` never faults, so the ticks that pass between two calls of `get_ticks`
are their difference.
-/

namespace Zeos

section Division

variable {n : BitVec 64} {high base : BitVec 32}

theorem divl_eq (low : BitVec 32) (h : high < base)
    : ∃ q r, divl high low base = some (q, r) ∧
        q.toNat = (high.toNat * 2 ^ 32 + low.toNat) / base.toNat ∧
          r.toNat = (high.toNat * 2 ^ 32 + low.toNat) % base.toNat := by
  have hlow := low.isLt
  have hbase := base.isLt
  have hlt : high.toNat < base.toNat := h
  have hpos : 0 < base.toNat := by omega
  have hzero : base ≠ 0 := by
    rintro rfl
    exact absurd hpos (by decide)
  have hquotient : (high.toNat * 2 ^ 32 + low.toNat) / base.toNat < 2 ^ 32 := by
    rw [Nat.div_lt_iff_lt_mul hpos]
    have hmul : (high.toNat + 1) * 2 ^ 32 ≤ base.toNat * 2 ^ 32 := Nat.mul_le_mul_right _ hlt
    omega
  have hmod := Nat.mod_lt (high.toNat * 2 ^ 32 + low.toNat) hpos
  have hnofault : ¬(base = 0 ∨ 2 ^ 32 ≤ (high.toNat * 2 ^ 32 + low.toNat) / base.toNat) :=
    not_or.mpr ⟨hzero, Nat.not_le.mpr hquotient⟩
  refine ⟨_, _, if_neg hnofault, ?_, ?_⟩
  . exact (BitVec.toNat_ofNat _ _).trans (Nat.mod_eq_of_lt hquotient)
  . exact (BitVec.toNat_ofNat _ _).trans (Nat.mod_eq_of_lt (by omega))

theorem div_mod_digits {a b c : Nat} (hc : 0 < c)
    : (a * 2 ^ 32 + b) / c = a / c * 2 ^ 32 + (a % c * 2 ^ 32 + b) / c ∧
        (a * 2 ^ 32 + b) % c = (a % c * 2 ^ 32 + b) % c := by
  have hsplit : a * 2 ^ 32 + b = a % c * 2 ^ 32 + b + c * (a / c * 2 ^ 32) := by
    calc
      a * 2 ^ 32 + b = (c * (a / c) + a % c) * 2 ^ 32 + b := by rw [Nat.div_add_mod]
      _ = a % c * 2 ^ 32 + b + c * (a / c * 2 ^ 32) := by ring
  constructor
  . rw [hsplit, Nat.add_mul_div_left _ _ hc, Nat.add_comm]
  . rw [hsplit, Nat.add_mul_mod_self_left]

theorem doDiv_eq (n : BitVec 64) (h : base ≠ 0)
    : ∃ q r, doDiv n base = some (q, r) ∧ q.toNat = n.toNat / base.toNat ∧ r.toNat = n.toNat % base.toNat := by
  have hn := n.isLt
  have hpos : 0 < base.toNat := by
    rcases Nat.eq_zero_or_pos base.toNat with hzero | hpos
    . exact absurd (BitVec.eq_of_toNat_eq hzero) h
    . exact hpos
  have hlow : (n.extractLsb' 0 32).toNat = n.toNat % 2 ^ 32 := by
    rw [BitVec.extractLsb'_toNat, Nat.shiftRight_zero]
  have hhigh : (n.extractLsb' 32 32).toNat = n.toNat / 2 ^ 32 := by
    rw [BitVec.extractLsb'_toNat, Nat.shiftRight_eq_div_pow]
    omega
  have hdigits : n.toNat = n.toNat / 2 ^ 32 * 2 ^ 32 + n.toNat % 2 ^ 32 := by
    omega
  -- Where the high digit is 0, its division is left out.
  have hupper : (if n.extractLsb' 32 32 ≠ 0 then n.extractLsb' 32 32 % base else n.extractLsb' 32 32) =
      n.extractLsb' 32 32 % base := by
    split
    next => rfl
    next hzero => rw [not_not.mp hzero]; exact BitVec.zero_umod.symm
  have hquotient : (if n.extractLsb' 32 32 ≠ 0 then n.extractLsb' 32 32 / base else n.extractLsb' 32 32) =
      n.extractLsb' 32 32 / base := by
    split
    next => rfl
    next hzero => rw [not_not.mp hzero]; exact BitVec.zero_udiv.symm
  have hlt : n.extractLsb' 32 32 % base < base := BitVec.umod_lt _ hpos
  obtain ⟨q, r, hdivl, hq, hr⟩ := divl_eq (n.extractLsb' 0 32) hlt
  have hdo : doDiv n base = some (n.extractLsb' 32 32 / base ++ q, r) := by
    unfold doDiv
    dsimp only
    rw [hupper, hquotient, hdivl]
    rfl
  rw [BitVec.toNat_umod, hhigh, hlow] at hq hr
  obtain ⟨hdiv, hmod⟩ := div_mod_digits hpos (a := n.toNat / 2 ^ 32) (b := n.toNat % 2 ^ 32)
  refine ⟨_, _, hdo, ?_, ?_⟩
  . rw [BitVec.toNat_append, ← Nat.shiftLeft_add_eq_or_of_lt q.isLt, Nat.shiftLeft_eq, BitVec.toNat_udiv, hhigh, hq,
      ← hdiv, ← hdigits]
  . rw [hr, ← hmod, ← hdigits]

end Division

section Ticks

theorem toNat_counter (edx eax : BitVec 32)
    : ((edx.setWidth 64 <<< 32) + eax.setWidth 64 : BitVec 64).toNat = edx.toNat * 2 ^ 32 + eax.toNat := by
  have hedx := edx.isLt
  have heax := eax.isLt
  rw [BitVec.toNat_add, BitVec.toNat_shiftLeft, BitVec.toNat_setWidth, BitVec.toNat_setWidth, Nat.shiftLeft_eq]
  omega

theorem getTicks_eq (edx eax : BitVec 32)
    : getTicks edx eax = some (BitVec.ofNat 32 ((edx.toNat * 2 ^ 32 + eax.toNat) / 109000)) := by
  have hbase : cyclesPerTick ≠ 0 := by decide
  obtain ⟨q, r, hdo, hq, -⟩ := doDiv_eq ((edx.setWidth 64 <<< 32) + eax.setWidth 64) hbase
  rw [toNat_counter] at hq
  have hticks : getTicks edx eax = some (q.setWidth 32) := by
    unfold getTicks
    dsimp only
    rw [hdo]
    rfl
  rw [hticks]
  congr 1
  apply BitVec.eq_of_toNat_eq
  rw [BitVec.toNat_setWidth, BitVec.toNat_ofNat, hq]
  rfl

/--
`get_ticks` never fails, and the difference of two calls is the number of ticks between them, also when the ticks
do not fit in 32 bits any more.
-/
theorem getTicks_elapsed (edx eax edx' eax' : BitVec 32)
    (h : edx.toNat * 2 ^ 32 + eax.toNat ≤ edx'.toNat * 2 ^ 32 + eax'.toNat)
    : ∃ a b, getTicks edx eax = some a ∧ getTicks edx' eax' = some b ∧
        (b - a).toNat = ((edx'.toNat * 2 ^ 32 + eax'.toNat) / 109000 -
          (edx.toNat * 2 ^ 32 + eax.toNat) / 109000) % 2 ^ 32 := by
  refine ⟨_, _, getTicks_eq edx eax, getTicks_eq edx' eax', ?_⟩
  have hle := Nat.div_le_div_right (c := 109000) h
  rw [BitVec.toNat_sub, BitVec.toNat_ofNat, BitVec.toNat_ofNat]
  omega

theorem getTicks_elapsed_wrap
    : ∃ a b, getTicks 0x1A9C7 0xFFFFFFFF = some a ∧ getTicks 0x1A9C8 0x0001A9C8 = some b ∧ (b - a).toNat = 2 := by
  obtain ⟨a, b, ha, hb, hdiff⟩ := getTicks_elapsed 0x1A9C7 0xFFFFFFFF 0x1A9C8 0x0001A9C8 (by decide)
  exact ⟨a, b, ha, hb, hdiff.trans (by decide)⟩

end Ticks

end Zeos
