import Zeos.Spec.Access
import Zeos.Lemmas.Boot

/-!
`access_ok` lets some blocks through that are not the user's, and refuses most of the heap.
-/

namespace Zeos

section AccessOk

variable {type : Verify} {addr size : BitVec 32}

theorem accessOk_iff
    : accessOk type addr size = true ↔
        addr.toNat / pageSize ≤ (addr + size).toNat / pageSize ∧
          pagLogInitCode ≤ addr.toNat / pageSize ∧ (addr + size).toNat / pageSize ≤ pagLogInitHeap := by
  unfold accessOk pagLogInitHeap pagLogInitData
  dsimp only
  split
  next hlt =>
    simp only [Bool.false_eq_true, false_iff]
    omega
  next hle =>
    split
    next hwrite =>
      simp only [true_iff]
      omega
    next =>
      split
      next => simp only [true_iff]; omega
      next hnot => simp only [Bool.false_eq_true, false_iff]; omega

theorem accessOk_iff_toNat
    : accessOk type addr size = true ↔ pagLogInitCode ≤ addr.toNat / pageSize ∧
        (addr.toNat + size.toNat < heapStart + pageSize ∨
          addr.toNat / pageSize ≤ pagLogInitHeap ∧ 2 ^ 32 ≤ addr.toNat % pageSize + size.toNat) := by
  have haddr := addr.isLt
  have hsize := size.isLt
  rw [accessOk_iff, BitVec.toNat_add]
  unfold heapStart pagLogInitHeap pagLogInitData pagLogInitCode numPagCode numPagData pageSize
  by_cases hwrap : addr.toNat + size.toNat < 2 ^ 32
  . rw [Nat.mod_eq_of_lt hwrap]
    omega
  . have hmod : (addr.toNat + size.toNat) % 2 ^ 32 = addr.toNat + size.toNat - 2 ^ 32 := by
      rw [Nat.mod_eq_sub_mod (by omega), Nat.mod_eq_of_lt (by omega)]
    rw [hmod]
    omega

/--
The blocks that are let through are good ones, but for three kinds.
-/
theorem accessOk_sound_iff
    : (accessOk type addr size = true → InUserPages type addr size) ↔ ¬Misjudged type addr size := by
  have haddr := addr.isLt
  rw [accessOk_iff_toNat]
  constructor
  . rintro hsound (⟨hstart, hlast, hwrap⟩ | ⟨hpos, hstart, hlt, hend⟩ | ⟨rfl, hpos, hstart, hcode, hend⟩)
    . have hgood := (hsound ⟨hstart, .inr ⟨hlast, hwrap⟩⟩).noWrap
      have hmod := Nat.mod_le addr.toNat pageSize
      omega
    . have hgood := ((hsound ⟨hstart, .inl hend⟩).inside (size.toNat - 1) (by omega)).2
      unfold heapStart at hlt
      unfold pageSize at *
      omega
    . have hgood := ((hsound ⟨hstart, .inl hend⟩).inside 0 hpos).1
      rw [Nat.add_zero] at hgood
      exact absurd hcode (Nat.not_lt.mpr hgood)
  . rintro hjudged ⟨hstart, hend | ⟨hlast, hwrap⟩⟩
    . have hheap : size.toNat = 0 ∨ addr.toNat + size.toNat ≤ heapStart := by
        by_contra hnot
        apply hjudged
        refine .inr (.inl ⟨by omega, hstart, by omega, hend⟩)
      have hfirst : size.toNat = 0 ∨ type.firstPage ≤ addr.toNat / pageSize := by
        by_contra hnot
        apply hjudged
        cases type with
        | verifyRead =>
          have hfirst : Verify.verifyRead.firstPage = pagLogInitCode := rfl
          omega
        | verifyWrite =>
          have hfirst : Verify.verifyWrite.firstPage = pagLogInitData := rfl
          exact .inr (.inr ⟨rfl, by omega, hstart, by omega, hend⟩)
      constructor
      . unfold heapStart pagLogInitHeap pagLogInitData pagLogInitCode pageSize at hend
        unfold numPagCode numPagData at hend
        omega
      . intro i hi
        have hle : addr.toNat / pageSize ≤ (addr.toNat + i) / pageSize :=
          Nat.div_le_div_right (Nat.le_add_right _ _)
        refine ⟨by omega, ?_⟩
        unfold heapStart at hheap
        apply Nat.div_lt_of_lt_mul
        rw [Nat.mul_comm]
        omega
    . exact absurd (.inl ⟨hstart, hlast, hwrap⟩) hjudged

end AccessOk

theorem not_inUserPages_code
    : accessOk .verifyWrite 0x100000 4 = true ∧ ¬InUserPages .verifyWrite 0x100000 4 := by
  decide

section WritesBlock

variable {s : Sys} {k : Kernel} {addr size : BitVec 32}

theorem lt_of_writes {a : Addr} (h : k.Writes a) : a.toNat < totalPages * pageSize := by
  by_contra hle
  unfold Kernel.Writes Mm.entryOf at h
  dsimp only at h
  rw [if_neg (by unfold pageSize totalPages at *; omega)] at h
  cases h

theorem end_le_of_writesBlock (h : k.WritesBlock addr size) (hpos : 0 < size.toNat)
    : addr.toNat + size.toNat ≤ totalPages * pageSize := by
  have hsize := size.isLt
  have hfirst := lt_of_writes (h 0 hpos)
  rw [BitVec.add_zero] at hfirst
  by_contra hlt
  -- The first address past the last page is one of the block.
  have hi : totalPages * pageSize - addr.toNat < size.toNat := by omega
  have hmapped := lt_of_writes (h _ hi)
  rw [BitVec.toNat_add, BitVec.toNat_ofNat] at hmapped
  unfold pageSize totalPages at *
  omega

/--
What a process can store to is a buffer for its system calls only below the second page of the heap.
-/
theorem acceptsBuffer_iff (h : s.WritesBlock addr size)
    : s.AcceptsBuffer addr size ↔ pagLogInitCode * pageSize ≤ addr.toNat ∧
        addr.toNat + size.toNat < heapStart + pageSize := by
  have hstart : pagLogInitCode ≤ addr.toNat / pageSize ↔ pagLogInitCode * pageSize ≤ addr.toNat :=
    Nat.le_div_iff_mul_le (by decide)
  have hok : accessOk .verifyWrite addr size = true ↔ pagLogInitCode * pageSize ≤ addr.toNat ∧
      addr.toNat + size.toNat < heapStart + pageSize := by
    rw [accessOk_iff_toNat, hstart]
    have hwrap : ¬2 ^ 32 ≤ addr.toNat % pageSize + size.toNat := by
      have hsize := size.isLt
      have hmod := Nat.mod_lt addr.toNat (by decide : 0 < pageSize)
      by_cases hpos : 0 < size.toNat
      . have hend := end_le_of_writesBlock h hpos
        unfold totalPages pageSize at *
        omega
      . unfold pageSize at *
        omega
    simp only [hwrap, and_false, or_false]
  constructor
  . intro haccepts
    exact hok.mp haccepts.accessOk
  . intro hrange
    have haccess := hok.mpr hrange
    constructor
    . exact haccess
    . intro hpos
      have hne : addr ≠ 0 := by
        rintro rfl
        have hnot : ¬pagLogInitCode * pageSize ≤ (0 : BitVec 32).toNat := by decide
        exact hnot hrange.1
      unfold Sys.sysRead
      rw [if_neg hne, if_neg (by omega), if_neg (by decide), if_neg (by simp [haccess])]
    . rintro rfl pid hpid r k hstats
      unfold Kernel.sysGetStats at hstats
      rw [if_neg (by omega), if_neg (by simp [haccess])] at hstats
      split at hstats
      next =>
        cases hstats
        decide
      next =>
        obtain ⟨m, -, hstats⟩ := Option.bind_eq_some_iff.mp hstats
        obtain ⟨m', -, hstats⟩ := Option.bind_eq_some_iff.mp hstats
        cases hstats
        decide

end WritesBlock

theorem acceptsBuffer_iff_data
    : ∃ s, boot (fun _ _ => 0) = some s ∧
        (s.AcceptsBuffer 0x108000 4 ↔ pagLogInitCode * pageSize ≤ (0x108000 : BitVec 32).toNat ∧
          (0x108000 : BitVec 32).toNat + (4 : BitVec 32).toNat < heapStart + pageSize) := by
  have hboot : ∀ s ∈ boot fun _ _ => 0, s.WritesBlock 0x108000 4 := by
    decide +kernel
  obtain ⟨s, hs⟩ := exists_boot fun _ _ => 0
  exact ⟨s, hs, acceptsBuffer_iff (hboot s hs)⟩

def withHeap (s : Sys) : Sys :=
  s.mapKernel fun k =>
    { k with
      mm := (k.mm.setSsPag (k.getPT k.current) pagLogInitHeap 800).setSsPag (k.getPT k.current)
        (pagLogInitHeap + 1) 802 }

theorem not_acceptsBuffer_heap
    : ∃ s, boot (fun _ _ => 0) = some s ∧ (withHeap s).WritesBlock 0x11D000 4 ∧
        ¬(withHeap s).AcceptsBuffer 0x11D000 4 := by
  have hboot : ∀ s ∈ boot fun _ _ => 0, (withHeap s).WritesBlock 0x11D000 4 := by
    decide +kernel
  obtain ⟨s, hs⟩ := exists_boot fun _ _ => 0
  refine ⟨s, hs, hboot s hs, ?_⟩
  intro haccepts
  have hnot : accessOk .verifyWrite 0x11D000 4 = false := by decide
  rw [haccepts.accessOk] at hnot
  cases hnot

end Zeos
