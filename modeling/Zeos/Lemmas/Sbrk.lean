import Zeos.Lemmas.Heap

/-!
Which pages the loops of `sys_sbrk` go over, and where the break is afterwards.
-/

namespace Zeos

namespace Kernel

section Loops

variable {tp fuel i n p : Nat} {last j iPage aux : Int} {mm : Mm}

theorem sbrkShrink_fst (hlast : (pagLogInitHeap : Int) ≤ last)
    : (sbrkShrink tp last fuel i mm).1 = true := by
  induction fuel generalizing i mm with
  | zero => rfl
  | succ fuel ih =>
    unfold sbrkShrink
    split
    next hlt =>
      rw [if_neg (by omega)]
      exact ih
    next => rfl

theorem sbrkShrink_eq (hlast : (i : Int) ≤ last) : (sbrkShrink tp last fuel i mm).2 = mm := by
  cases fuel with
  | zero => rfl
  | succ fuel =>
    unfold sbrkShrink
    rw [if_neg (by omega)]

theorem sbrkShrink_table (hp : (p : Int) ≤ last)
    : (sbrkShrink tp last fuel i mm).2.pagusrTable (tp + p) = mm.pagusrTable (tp + p) := by
  induction fuel generalizing i mm with
  | zero => rfl
  | succ fuel ih =>
    unfold sbrkShrink
    split
    next hlt =>
      split
      next => rfl
      next =>
        rw [ih, Mm.pagusrTable_delSsPag, if_neg (by omega), Mm.pagusrTable_freeFrame]
    next => rfl

theorem sbrkRevert_table (hp : (p : Int) ≤ last)
    : (sbrkRevert tp last j fuel mm).pagusrTable (tp + p) = mm.pagusrTable (tp + p) := by
  induction fuel generalizing j mm with
  | zero => rfl
  | succ fuel ih =>
    unfold sbrkRevert
    split
    next hlt =>
      rw [ih, Mm.pagusrTable_delSsPag, if_neg (by omega), Mm.pagusrTable_freeFrame]
    next => rfl

theorem sbrkGrow_present (hp : (p : Int) ≤ iPage + aux)
    (hpresent : (mm.pagusrTable (tp + p)).present = true)
    : ((sbrkGrow tp iPage aux n i mm).2.pagusrTable (tp + p)).present = true := by
  induction n generalizing i mm with
  | zero => exact hpresent
  | succ n ih =>
    unfold sbrkGrow
    split
    next =>
      have hsame : (mm.allocFrame.2).pagusrTable = mm.pagusrTable := Mm.pagusrTable_allocFrame
      split
      next f mm' halloc =>
        rw [halloc] at hsame
        apply ih
        rw [Mm.pagusrTable_setSsPag]
        split
        next => rfl
        next => rw [hsame, hpresent]
      next mm' halloc =>
        rw [halloc] at hsame
        rw [sbrkRevert_table hp, hsame, hpresent]
    next => exact ih hpresent

end Loops

section Call

variable {k : Kernel} {incr : Int}

theorem breakAfter_of_pos (hrange : k.BreakInRange) (hincr : 0 < incr) (hint : incr < 2 ^ 31)
    : k.breakAfter incr = k.currentBreak + incr.toNat := by
  have hadd := addUnsigned_eq hrange hincr hint
  unfold breakAfter clampIncr
  rw [hadd, if_neg, hadd]
  have := hrange.1
  omega

theorem sysSbrk_break (hrange : k.BreakInRange) (incr : Int)
    : ((k.sysSbrk incr).1 < 0 ∧ (k.sysSbrk incr).2.task = k.task) ∨
        ((k.sysSbrk incr).1 = k.currentBreak ∧
          (k.sysSbrk incr).2.task = (k.setTask k.current fun ts =>
            { ts with processBreak := k.breakAfter incr }).task) := by
  have hbreak : (k.task k.current).processBreak = k.currentBreak := rfl
  have hstart : heapStart ≤ k.breakAfter incr := heapStart_le_addUnsigned k.currentBreak incr
  have hpage : pagLogInitHeap ≤ k.breakAfter incr / pageSize :=
    (Nat.le_div_iff_mul_le (by decide)).mpr hstart
  have herror : (-eNOMEM : Int) < 0 := by decide
  unfold sysSbrk
  simp only [hbreak]
  unfold breakAfter at hpage ⊢
  split
  next => exact .inl ⟨herror, rfl⟩
  next =>
    split
    next =>
      split
      next => exact .inr ⟨rfl, rfl⟩
      next => exact .inl ⟨herror, rfl⟩
    next =>
      split
      next =>
        right
        rw [if_pos]
        . exact ⟨rfl, rfl⟩
        . apply sbrkShrink_fst
          omega
      next =>
        right
        refine ⟨rfl, ?_⟩
        have hzero : clampIncr k.currentBreak incr = 0 := by omega
        have hsame : addUnsigned k.currentBreak 0 = k.currentBreak := by
          obtain ⟨-, hlt⟩ := hrange
          unfold totalPages pageSize at hlt
          unfold addUnsigned
          omega
        funext t
        rw [hzero, hsame, setTask_task]
        split
        next heq => rw [heq]; rfl
        next => rfl

theorem sysSbrk_zero (hrange : k.BreakInRange) : k.sysSbrk 0 = ((k.currentBreak : Int), k) := by
  have hbreak : (k.task k.current).processBreak = k.currentBreak := rfl
  obtain ⟨hle, hlt⟩ := hrange
  have hsame : addUnsigned k.currentBreak 0 = k.currentBreak := by
    unfold totalPages pageSize at hlt
    unfold addUnsigned
    omega
  have hclamp : clampIncr k.currentBreak 0 = 0 := by
    unfold clampIncr
    rw [hsame, if_neg (by omega)]
  unfold sysSbrk
  simp only [hbreak, hclamp, hsame]
  rw [if_neg]
  . rfl
  . unfold totalPages pageSize at *
    omega

/--
A break that wraps around is far above the last page.
-/
theorem breakAfter_of_wrap (hrange : k.BreakInRange) (hint : -2 ^ 31 ≤ incr)
    (hwrap : k.currentBreak + incr < 0) : totalPages < k.breakAfter incr / pageSize := by
  obtain ⟨hstart, hend⟩ := hrange
  unfold breakAfter clampIncr addUnsigned
  unfold heapStart pagLogInitHeap pagLogInitData pagLogInitCode numPagCode numPagData at *
  unfold totalPages pageSize at *
  have hmod : (k.currentBreak + incr : Int) % 2 ^ 32 = k.currentBreak + incr + 2 ^ 32 := by omega
  rw [hmod, if_neg (by omega), hmod]
  omega

theorem clampIncr_of_nonneg (hrange : k.BreakInRange) (hint : incr < 2 ^ 31)
    (hpos : 0 ≤ k.currentBreak + incr)
    : clampIncr k.currentBreak incr = (lowered k.currentBreak incr : Int) - k.currentBreak ∧
        k.breakAfter incr = lowered k.currentBreak incr := by
  obtain ⟨hstart, hend⟩ := hrange
  unfold breakAfter clampIncr addUnsigned lowered
  unfold heapStart pagLogInitHeap pagLogInitData pagLogInitCode numPagCode numPagData at *
  unfold totalPages pageSize at *
  have hmod : (k.currentBreak + incr : Int) % 2 ^ 32 = k.currentBreak + incr := by omega
  rw [hmod]
  split
  next =>
    have hdiff : (((256 + 8 + 20) * 4096 : Nat) - k.currentBreak : Int).bmod (2 ^ 32) =
        ((256 + 8 + 20) * 4096 : Nat) - k.currentBreak := by
      apply Int.bmod_eq_of_le <;> omega
    rw [hdiff]
    omega
  next =>
    rw [hmod]
    omega

/--
A decrement that would take the break below 0 makes the sum large, any other one stops at the start of the
heap.
-/
theorem clampIncr_of_neg (hrange : k.BreakInRange) (hincr : incr < 0) (hint : -2 ^ 31 ≤ incr)
    : totalPages < addUnsigned k.currentBreak (clampIncr k.currentBreak incr) / pageSize ∨
        clampIncr k.currentBreak incr = (lowered k.currentBreak incr : Int) - k.currentBreak ∧
          addUnsigned k.currentBreak (clampIncr k.currentBreak incr) = lowered k.currentBreak incr ∧
          lowered k.currentBreak incr ≤ k.currentBreak := by
  by_cases hneg : (k.currentBreak : Int) + incr < 0
  . exact .inl (breakAfter_of_wrap hrange hint hneg)
  . right
    obtain ⟨hclamp, hafter⟩ := clampIncr_of_nonneg hrange (by omega) (not_lt.mp hneg)
    refine ⟨hclamp, hafter, ?_⟩
    have hstart := hrange.1
    unfold lowered
    omega

theorem heapStart_le_lowered (b : Nat) (incr : Int) : heapStart ≤ lowered b incr :=
  Nat.le_max_left _ _

theorem div_le_pageAfter (b : Nat) : b / pageSize ≤ pageAfter b :=
  Nat.le_add_right _ _

theorem pagLogInitHeap_le_pageAfter {b : Nat} (hstart : heapStart ≤ b)
    : pagLogInitHeap ≤ pageAfter b := by
  have hpage : pagLogInitHeap ≤ b / pageSize := (Nat.le_div_iff_mul_le (by decide)).mpr hstart
  exact hpage.trans (div_le_pageAfter b)

theorem sysSbrk_shrink (hrange : k.BreakInRange) (hincr : incr < 0) (hint : -2 ^ 31 ≤ incr)
    (hsuccess : 0 ≤ (k.sysSbrk incr).1)
    : lowered k.currentBreak incr ≤ k.currentBreak ∧
        (k.sysSbrk incr).2.currentBreak = lowered k.currentBreak incr ∧
        (k.sysSbrk incr).2.getPT (k.sysSbrk incr).2.current = k.getPT k.current ∧
        (k.sysSbrk incr).2.mm = (sbrkShrink (k.getPT k.current) (pageAfter (lowered k.currentBreak incr))
          (k.currentBreak / pageSize + 1) (k.currentBreak / pageSize) k.mm).2 := by
  have hbreak : (k.task k.current).processBreak = k.currentBreak := rfl
  have herror : ¬(0 : Int) ≤ -eNOMEM := by decide
  unfold sysSbrk at hsuccess ⊢
  simp only [hbreak] at hsuccess ⊢
  rcases clampIncr_of_neg hrange hincr hint with hlarge | ⟨hclamp, hadd, hle⟩
  . rw [if_pos hlarge] at hsuccess
    exact absurd hsuccess herror
  . have hlast : ((lowered k.currentBreak incr / pageSize : Nat) : Int) +
        ((if lowered k.currentBreak incr % pageSize = 0 then 0 else 1 : Nat) : Int) =
        pageAfter (lowered k.currentBreak incr) := by
      unfold pageAfter
      omega
    have hheap : (pagLogInitHeap : Int) ≤ pageAfter (lowered k.currentBreak incr) := by
      have := pagLogInitHeap_le_pageAfter (heapStart_le_lowered k.currentBreak incr)
      omega
    rw [hadd] at hsuccess ⊢
    rw [hlast] at hsuccess ⊢
    refine ⟨hle, ?_⟩
    split at hsuccess
    next => exact absurd hsuccess herror
    next hpages =>
      rw [if_neg hpages]
      rw [if_neg (show ¬clampIncr k.currentBreak incr > 0 by omega)]
      by_cases hsame : clampIncr k.currentBreak incr < 0
      . rw [if_pos hsame, sbrkShrink_fst hheap]
        refine ⟨?_, ?_, rfl⟩
        . simp [currentBreak]
        . simp [getPT, getDIR]
      . rw [if_neg hsame]
        refine ⟨?_, rfl, ?_⟩
        . dsimp only
          omega
        . have hbefore : lowered k.currentBreak incr = k.currentBreak := by omega
          rw [hbefore, sbrkShrink_eq]
          exact Int.ofNat_le.mpr (div_le_pageAfter _)

theorem current_sysSbrk (incr : Int) (k : Kernel) : (k.sysSbrk incr).2.current = k.current := by
  obtain ⟨task, mm, cr3, heq, -⟩ := sysSbrk_eq incr k
  rw [heq]

end Call

end Kernel

end Zeos
