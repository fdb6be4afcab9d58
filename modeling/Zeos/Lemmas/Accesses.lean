import Zeos.Lemmas.Break

/-!
The entries of the page table that `sys_sbrk` goes over. The loops leave the heap at its end, when the break
is in the page past the limit.
-/

namespace Zeos

structure Mm.AgreeOn (tp : Nat) (ps : List Nat) (mm mm' : Mm) : Prop where
  physMem : mm'.physMem = mm.physMem
  table : ∀ p ∈ ps, mm'.pagusrTable (tp + p) = mm.pagusrTable (tp + p)

namespace Mm.AgreeOn

variable {tp p f : Nat} {ps : List Nat} {mm mm' : Mm}

theorem setEntry (h : AgreeOn tp ps mm mm') (i : Nat) (e : PageTableEntry)
    : AgreeOn tp ps (mm.setEntry i e) (mm'.setEntry i e) where
  physMem := h.physMem
  table p hp := by
    unfold Mm.setEntry
    dsimp only
    rw [h.table p hp]

theorem setPhysMem (h : AgreeOn tp ps mm mm') (f : Nat) (u : Frame)
    : AgreeOn tp ps (mm.setPhysMem f u) (mm'.setPhysMem f u) where
  physMem := by
    unfold Mm.setPhysMem
    rw [h.physMem]
  table := h.table

theorem freeFrame (h : AgreeOn tp ps mm mm') (f : Nat)
    : AgreeOn tp ps (mm.freeFrame f) (mm'.freeFrame f) := by
  unfold Mm.freeFrame
  split
  next => exact h.setPhysMem f _
  next => exact h

theorem allocFrame (h : AgreeOn tp ps mm mm')
    : mm'.allocFrame.1 = mm.allocFrame.1 ∧ AgreeOn tp ps mm.allocFrame.2 mm'.allocFrame.2 := by
  unfold Mm.allocFrame
  rw [Mm.allocFrame_go_congr h.physMem]
  split
  next f _ => exact ⟨rfl, h.setPhysMem f _⟩
  next => exact ⟨rfl, h⟩

theorem giveBack (h : AgreeOn tp ps mm mm') (hp : p ∈ ps)
    : AgreeOn tp ps ((mm.freeFrame (mm.getFrame tp p)).delSsPag tp p)
        ((mm'.freeFrame (mm'.getFrame tp p)).delSsPag tp p) := by
  unfold Mm.getFrame
  rw [h.table p hp]
  exact (h.freeFrame _).setEntry _ _

end Mm.AgreeOn

namespace Kernel

section Loops

variable {tp fuel i n p b : Nat} {last j iPage aux : Int} {mm : Mm}

theorem mem_revertAccesses (h : p ∈ revertAccesses last j fuel) : last < p ∧ p ≤ j.toNat := by
  induction fuel generalizing j with
  | zero => cases h
  | succ fuel ih =>
    unfold revertAccesses at h
    split at h
    next hlt =>
      rcases List.mem_cons.mp h with rfl | h
      . omega
      . have := ih h
        omega
    next => cases h

theorem mem_shrinkAccesses (h : p ∈ shrinkAccesses last fuel i)
    : last < p ∧ p ≤ i ∧ pagLogInitHeap ≤ p := by
  induction fuel generalizing i with
  | zero => cases h
  | succ fuel ih =>
    unfold shrinkAccesses at h
    split at h
    next hlt =>
      split at h
      next => cases h
      next hheap =>
        rcases List.mem_cons.mp h with rfl | h
        . omega
        . have := ih h
          omega
    next => cases h

theorem le_of_mem_growAccesses (hi : b ≤ i) (hlast : (b : Int) ≤ iPage + aux)
    (h : p ∈ growAccesses tp iPage aux n i mm) : b ≤ p := by
  induction n generalizing i mm with
  | zero => cases h
  | succ n ih =>
    unfold growAccesses at h
    rcases List.mem_cons.mp h with rfl | h
    . exact hi
    split at h
    next =>
      split at h
      next => exact ih (by omega) h
      next =>
        have := mem_revertAccesses h
        omega
    next => exact ih (by omega) h

theorem growAccesses_lt_iff (hi : i ≤ b)
    : (∀ p ∈ growAccesses tp iPage aux n i mm, p < b) ↔
        i + n ≤ b ∨ mm.freeFrames < (presentPages mm tp i b).card := by
  induction n generalizing i mm with
  | zero => simp [growAccesses, hi]
  | succ n ih =>
    rw [growAccesses, List.forall_mem_cons]
    rcases Nat.lt_or_eq_of_le hi with hlt | rfl
    . have hend : i + (n + 1) = i + 1 + n := by omega
      rw [and_iff_right hlt, hend]
      split
      next hpresent =>
        rw [presentPages_of_present hlt hpresent]
        split
        next f mm' halloc =>
          obtain ⟨-, -, hcount⟩ := Mm.freeFrames_of_allocFrame halloc
          rw [ih hlt, presentPages_taken halloc, hcount, Nat.add_lt_add_iff_right]
          rfl
        next mm' halloc =>
          have hfull : mm.NoFreeFrame := Mm.noFreeFrame_iff.mpr (congrArg Prod.fst halloc)
          rw [Mm.freeFrames_eq_zero_iff.mpr hfull]
          refine iff_of_true ?_ (.inr (Nat.succ_pos _))
          intro p hp
          have := mem_revertAccesses hp
          omega
      next hnot =>
        rw [ih hlt, presentPages_of_not_present hlt hnot]
    . simp [presentPages]

theorem shrinkAccesses_lt_iff (hi : pagLogInitHeap ≤ i)
    : (∀ p ∈ shrinkAccesses last (i + 1) i, p < b) ↔ i < b ∨ i ≤ last := by
  constructor
  . intro h
    by_contra! hnot
    have hfirst : i ∈ shrinkAccesses last (i + 1) i := by
      rw [shrinkAccesses, if_pos hnot.2, if_neg (by omega)]
      exact List.mem_cons_self
    have := h i hfirst
    omega
  . rintro h p hp
    have := mem_shrinkAccesses hp
    omega

end Loops

section Footprint

variable {tp fuel i n e : Nat} {last j iPage aux : Int} {ps : List Nat} {mm mm' : Mm}

theorem sbrkRevert_of_not_accessed (h : ∀ p ∈ revertAccesses last j fuel, e ≠ tp + p)
    : (sbrkRevert tp last j fuel mm).pagusrTable e = mm.pagusrTable e := by
  induction fuel generalizing j mm with
  | zero => rfl
  | succ fuel ih =>
    unfold revertAccesses at h
    unfold sbrkRevert
    split
    next hlt =>
      rw [if_pos hlt] at h
      obtain ⟨hfirst, hrest⟩ := List.forall_mem_cons.mp h
      rw [ih hrest, Mm.pagusrTable_delSsPag, if_neg hfirst, Mm.pagusrTable_freeFrame]
    next => rfl

theorem sbrkGrow_of_not_accessed (h : ∀ p ∈ growAccesses tp iPage aux n i mm, e ≠ tp + p)
    : (sbrkGrow tp iPage aux n i mm).2.pagusrTable e = mm.pagusrTable e := by
  induction n generalizing i mm with
  | zero => rfl
  | succ n ih =>
    have htable : (mm.allocFrame.2).pagusrTable = mm.pagusrTable := Mm.pagusrTable_allocFrame
    unfold growAccesses at h
    unfold sbrkGrow
    obtain ⟨hfirst, h⟩ := List.forall_mem_cons.mp h
    split
    next hpresent =>
      rw [if_pos hpresent] at h
      split
      next f mm' halloc =>
        rw [halloc] at h htable
        rw [ih h, Mm.pagusrTable_setSsPag, if_neg hfirst, htable]
      next mm' halloc =>
        rw [halloc] at h htable
        rw [sbrkRevert_of_not_accessed h, htable]
    next hnot =>
      rw [if_neg hnot] at h
      exact ih h

theorem sbrkShrink_of_not_accessed (h : ∀ p ∈ shrinkAccesses last fuel i, e ≠ tp + p)
    : (sbrkShrink tp last fuel i mm).2.pagusrTable e = mm.pagusrTable e := by
  induction fuel generalizing i mm with
  | zero => rfl
  | succ fuel ih =>
    unfold shrinkAccesses at h
    unfold sbrkShrink
    split
    next hlt =>
      rw [if_pos hlt] at h
      split
      next => rfl
      next hheap =>
        rw [if_neg hheap] at h
        obtain ⟨hfirst, hrest⟩ := List.forall_mem_cons.mp h
        rw [ih hrest, Mm.pagusrTable_delSsPag, if_neg hfirst, Mm.pagusrTable_freeFrame]
    next => rfl

theorem sbrkRevert_agree (h : Mm.AgreeOn tp ps mm mm') (hps : revertAccesses last j fuel ⊆ ps)
    : Mm.AgreeOn tp ps (sbrkRevert tp last j fuel mm) (sbrkRevert tp last j fuel mm') := by
  induction fuel generalizing j mm mm' with
  | zero => exact h
  | succ fuel ih =>
    unfold revertAccesses at hps
    unfold sbrkRevert
    split
    next hlt =>
      rw [if_pos hlt] at hps
      obtain ⟨hfirst, hrest⟩ := List.cons_subset.mp hps
      exact ih (h.giveBack hfirst) hrest
    next => exact h

theorem sbrkGrow_agree (h : Mm.AgreeOn tp ps mm mm') (hps : growAccesses tp iPage aux n i mm ⊆ ps)
    : (sbrkGrow tp iPage aux n i mm').1 = (sbrkGrow tp iPage aux n i mm).1 ∧
        Mm.AgreeOn tp ps (sbrkGrow tp iPage aux n i mm).2 (sbrkGrow tp iPage aux n i mm').2 := by
  induction n generalizing i mm mm' with
  | zero => exact ⟨rfl, h⟩
  | succ n ih =>
    obtain ⟨hframe, hafter⟩ := h.allocFrame
    unfold growAccesses at hps
    unfold sbrkGrow
    obtain ⟨hfirst, hps⟩ := List.cons_subset.mp hps
    rw [h.table i hfirst]
    split
    next hpresent =>
      rw [if_pos hpresent] at hps
      cases halloc : mm.allocFrame with
      | mk f mm₁ =>
        cases halloc' : mm'.allocFrame with
        | mk f' mm₁' =>
          rw [halloc, halloc'] at hframe hafter
          rw [halloc] at hps
          obtain rfl : f' = f := hframe
          cases f' with
          | some f => exact ih (hafter.setEntry _ _) hps
          | none => exact ⟨rfl, sbrkRevert_agree hafter hps⟩
    next hnot =>
      rw [if_neg hnot] at hps
      exact ih h hps

theorem sbrkShrink_agree (h : Mm.AgreeOn tp ps mm mm') (hps : shrinkAccesses last fuel i ⊆ ps)
    : (sbrkShrink tp last fuel i mm').1 = (sbrkShrink tp last fuel i mm).1 ∧
        Mm.AgreeOn tp ps (sbrkShrink tp last fuel i mm).2 (sbrkShrink tp last fuel i mm').2 := by
  induction fuel generalizing i mm mm' with
  | zero => exact ⟨rfl, h⟩
  | succ fuel ih =>
    unfold shrinkAccesses at hps
    unfold sbrkShrink
    split
    next hlt =>
      rw [if_pos hlt] at hps
      split
      next => exact ⟨rfl, h⟩
      next hheap =>
        rw [if_neg hheap] at hps
        obtain ⟨hfirst, hrest⟩ := List.cons_subset.mp hps
        exact ih (h.giveBack hfirst) hrest
    next => exact ⟨rfl, h⟩

end Footprint

section Call

variable {k : Kernel} {incr : Int}

theorem pageAfter_le_iff {b p : Nat} : pageAfter b ≤ p ↔ b ≤ p * pageSize := by
  rw [← not_lt, lt_pageAfter, not_lt]

theorem runsOutInside_iff : k.RunsOutInside ↔
    k.mm.freeFrames <
      (presentPages k.mm (k.getPT k.current) (k.currentBreak / pageSize) totalPages).card := by
  have hpages : (Finset.range totalPages).filter (fun p =>
      k.currentBreak / pageSize ≤ p ∧ (k.heapEntry p).present) =
        presentPages k.mm (k.getPT k.current) (k.currentBreak / pageSize) totalPages := by
    ext p
    rw [presentPages, Finset.mem_filter, Finset.mem_filter, Finset.mem_range, Finset.mem_Ico,
      heapEntry]
    tauto
  rw [RunsOutInside, hpages]

theorem BreakInRange.page_le (h : k.BreakInRange)
    : pagLogInitHeap ≤ k.currentBreak / pageSize ∧ k.currentBreak / pageSize ≤ totalPages := by
  obtain ⟨hstart, hend⟩ := h
  refine ⟨(Nat.le_div_iff_mul_le (by decide)).mpr hstart, ?_⟩
  exact Nat.lt_succ_iff.mp (Nat.div_lt_of_lt_mul (by rwa [Nat.mul_comm]))

theorem sbrkAccesses_of_large (hlarge : totalPages < k.breakAfter incr / pageSize)
    : k.sbrkAccesses incr = [] := by
  unfold sbrkAccesses
  rw [if_pos hlarge]

theorem sbrkAccesses_of_pos (hsmall : ¬totalPages < k.breakAfter incr / pageSize)
    (hpos : 0 < clampIncr k.currentBreak incr)
    : k.sbrkAccesses incr = growAccesses (k.getPT k.current) (k.currentBreak / pageSize : Nat)
        (extraPage (k.breakAfter incr) : Nat)
        (pageAfter (k.breakAfter incr) - k.currentBreak / pageSize) (k.currentBreak / pageSize)
        k.mm := by
  unfold sbrkAccesses
  dsimp only
  rw [if_neg hsmall, if_pos hpos]
  rfl

theorem sbrkAccesses_of_neg (hsmall : ¬totalPages < k.breakAfter incr / pageSize)
    (hneg : clampIncr k.currentBreak incr < 0)
    : k.sbrkAccesses incr = shrinkAccesses (pageAfter (k.breakAfter incr) : Nat)
        (k.currentBreak / pageSize + 1) (k.currentBreak / pageSize) := by
  have hlast : ((pageAfter (k.breakAfter incr) : Nat) : Int) =
      (k.breakAfter incr / pageSize : Nat) + (extraPage (k.breakAfter incr) : Nat) := by
    unfold pageAfter extraPage
    omega
  unfold sbrkAccesses
  dsimp only
  rw [if_neg hsmall, if_neg (by omega), if_pos hneg, hlast]
  rfl

theorem sbrkAccesses_of_zero (hzero : clampIncr k.currentBreak incr = 0)
    : k.sbrkAccesses incr = [] := by
  unfold sbrkAccesses
  dsimp only
  rw [hzero]
  simp

/--
A call accesses entries of the heap only if the break stays out of the page past the limit.
-/
theorem accessesHeap_iff (hrange : k.BreakInRange) (hle : -2 ^ 31 ≤ incr) (hlt : incr < 2 ^ 31)
    : k.AccessesHeap incr ↔ k.StaysInTable incr := by
  obtain ⟨hfirst, hlast⟩ := hrange.page_le
  have hpage : totalPages ≤ k.currentBreak / pageSize ↔ breakLimit ≤ k.currentBreak :=
    Nat.le_div_iff_mul_le (by decide)
  by_cases hwrap : k.currentBreak + incr < 0
  . rw [AccessesHeap, sbrkAccesses_of_large (breakAfter_of_wrap hrange hle hwrap)]
    refine iff_of_true (by simp) ⟨?_, fun _ _ => .inl hwrap⟩
    intro hpos
    omega
  obtain ⟨hclamp, hafter⟩ := clampIncr_eq hrange hlt (not_lt.mp hwrap)
  have hheap : pagLogInitHeap ≤ pageAfter (k.breakAfter incr) :=
    pagLogInitHeap_le_pageAfter (heapStart_le_addUnsigned k.currentBreak incr)
  have hstart := hrange.1
  have hwanted : k.breakWanted incr = max (heapStart : Int) (k.currentBreak + incr) := rfl
  by_cases hlarge : totalPages < k.breakAfter incr / pageSize
  . have hpast := (large_iff hafter).mp hlarge
    rw [AccessesHeap, sbrkAccesses_of_large hlarge]
    refine iff_of_true (by simp) ⟨fun _ _ => .inl hpast, fun _ _ => .inr ?_⟩
    unfold pageSize at *
    omega
  have hnear : ¬(breakLimit + pageSize : Int) ≤ k.breakWanted incr :=
    fun hpast => hlarge ((large_iff hafter).mpr hpast)
  rcases lt_trichotomy (clampIncr k.currentBreak incr) 0 with hneg | hzero | hpos
  . have hiff : k.AccessesHeap incr ↔ ∀ p ∈ k.sbrkAccesses incr, p < totalPages := by
      apply forall₂_congr
      intro p hp
      rw [sbrkAccesses_of_neg hlarge hneg] at hp
      exact and_iff_right (mem_shrinkAccesses hp).2.2
    have hstay : totalPages ≤ pageAfter (k.breakAfter incr) ↔
        (breakLimit - pageSize : Int) < k.breakWanted incr := by
      have := lt_pageAfter (b := k.breakAfter incr) (p := totalPages - 1)
      unfold breakLimit totalPages pageSize at *
      omega
    rw [hiff, sbrkAccesses_of_neg hlarge hneg, shrinkAccesses_lt_iff hfirst]
    unfold StaysInTable
    omega
  . rw [AccessesHeap, sbrkAccesses_of_zero hzero]
    refine iff_of_true (by simp) ⟨?_, ?_⟩
    . omega
    . unfold pageSize
      omega
  . have hiff : k.AccessesHeap incr ↔ ∀ p ∈ k.sbrkAccesses incr, p < totalPages := by
      apply forall₂_congr
      intro p hp
      rw [sbrkAccesses_of_pos hlarge hpos] at hp
      exact and_iff_right (le_of_mem_growAccesses hfirst (by omega) hp)
    have hend : pageAfter (k.breakAfter incr) ≤ totalPages ↔ k.breakAfter incr ≤ breakLimit :=
      pageAfter_le_iff
    have hgrows : k.currentBreak / pageSize ≤ pageAfter (k.breakAfter incr) := by
      have hpages := Nat.div_le_div_right (c := pageSize)
        (show k.currentBreak ≤ k.breakAfter incr by omega)
      exact hpages.trans (div_le_pageAfter _)
    rw [hiff, sbrkAccesses_of_pos hlarge hpos, growAccesses_lt_iff hlast, ← runsOutInside_iff,
      Nat.add_sub_cancel' hgrows, hend]
    unfold StaysInTable
    constructor
    . intro hin
      refine ⟨fun _ hpast => .inr (hin.resolve_left ?_), ?_⟩
      . omega
      . omega
    . rintro ⟨hin, -⟩
      rw [or_iff_not_imp_left]
      intro hpast
      exact (hin (by omega) (by omega)).resolve_left hnear

def callGrow (k : Kernel) (incr : Int) (mm : Mm) : Bool × Mm :=
  sbrkGrow (k.getPT k.current) (k.currentBreak / pageSize : Nat) (extraPage (k.breakAfter incr) : Nat)
    (pageAfter (k.breakAfter incr) - k.currentBreak / pageSize) (k.currentBreak / pageSize) mm

def callShrink (k : Kernel) (incr : Int) (mm : Mm) : Bool × Mm :=
  sbrkShrink (k.getPT k.current) (pageAfter (k.breakAfter incr) : Nat) (k.currentBreak / pageSize + 1)
    (k.currentBreak / pageSize) mm

theorem sysSbrk_of_pos (hsmall : ¬totalPages < k.breakAfter incr / pageSize)
    (hpos : 0 < clampIncr k.currentBreak incr)
    : (k.sysSbrk incr).1 = (if (k.callGrow incr k.mm).1 then (k.currentBreak : Int) else -eNOMEM) ∧
        (k.sysSbrk incr).2.mm = (k.callGrow incr k.mm).2 := by
  have hbreak : (k.task k.current).processBreak = k.currentBreak := rfl
  have hgrow : ∀ x, k.callGrow incr k.mm = x → sbrkGrow (k.getPT k.current)
      (k.currentBreak / pageSize : Nat) (extraPage (k.breakAfter incr) : Nat)
      (k.breakAfter incr / pageSize + extraPage (k.breakAfter incr) - k.currentBreak / pageSize)
      (k.currentBreak / pageSize) k.mm = x := fun _ heq => heq
  unfold breakAfter extraPage at *
  unfold sysSbrk
  simp only [hbreak]
  rw [if_neg hsmall, if_pos hpos]
  cases hcall : k.callGrow incr k.mm with
  | mk enough mm =>
    rw [hgrow _ hcall]
    cases enough with
    | true => exact ⟨rfl, rfl⟩
    | false => exact ⟨rfl, rfl⟩

theorem sysSbrk_of_neg (hsmall : ¬totalPages < k.breakAfter incr / pageSize)
    (hneg : clampIncr k.currentBreak incr < 0)
    : (k.sysSbrk incr).1 = (if (k.callShrink incr k.mm).1 then (k.currentBreak : Int) else -eFAULT) ∧
        (k.sysSbrk incr).2.mm = (k.callShrink incr k.mm).2 := by
  have hbreak : (k.task k.current).processBreak = k.currentBreak := rfl
  have hlast : ((pageAfter (k.breakAfter incr) : Nat) : Int) =
      (k.breakAfter incr / pageSize : Nat) +
        ((if k.breakAfter incr % pageSize = 0 then 0 else 1 : Nat) : Int) := by
    unfold pageAfter
    omega
  unfold callShrink
  rw [hlast]
  unfold breakAfter at *
  unfold sysSbrk
  simp only [hbreak]
  rw [if_neg hsmall, if_neg (by omega), if_pos hneg]
  generalize sbrkShrink _ _ _ _ _ = x
  split
  next => exact ⟨rfl, rfl⟩
  next => exact ⟨rfl, rfl⟩

theorem sysSbrk_of_zero (hsmall : ¬totalPages < k.breakAfter incr / pageSize)
    (hzero : clampIncr k.currentBreak incr = 0) : k.sysSbrk incr = ((k.currentBreak : Int), k) := by
  have hbreak : (k.task k.current).processBreak = k.currentBreak := rfl
  unfold breakAfter at hsmall
  unfold sysSbrk
  simp only [hbreak]
  rw [if_neg hsmall, if_neg (by omega), if_neg (by omega)]

/--
A call writes only to the entries that it goes over.
-/
theorem sysSbrk_of_not_accessed {e : Nat} (h : ∀ p ∈ k.sbrkAccesses incr, e ≠ k.getPT k.current + p)
    : (k.sysSbrk incr).2.mm.pagusrTable e = k.mm.pagusrTable e := by
  by_cases hlarge : totalPages < k.breakAfter incr / pageSize
  . rw [sysSbrk_of_large hlarge]
  rcases lt_trichotomy (clampIncr k.currentBreak incr) 0 with hneg | hzero | hpos
  . rw [sbrkAccesses_of_neg hlarge hneg] at h
    rw [(sysSbrk_of_neg hlarge hneg).2]
    exact sbrkShrink_of_not_accessed h
  . rw [sysSbrk_of_zero hlarge hzero]
  . rw [sbrkAccesses_of_pos hlarge hpos] at h
    rw [(sysSbrk_of_pos hlarge hpos).2]
    exact sbrkGrow_of_not_accessed h

/--
Nor does it read other entries: with the same entries there it has the same result, and leaves the same.
-/
theorem sysSbrk_agree {mm : Mm} (h : Mm.AgreeOn (k.getPT k.current) (k.sbrkAccesses incr) k.mm mm)
    : (({ k with mm := mm } : Kernel).sysSbrk incr).1 = (k.sysSbrk incr).1 ∧
        Mm.AgreeOn (k.getPT k.current) (k.sbrkAccesses incr) (k.sysSbrk incr).2.mm
          (({ k with mm := mm } : Kernel).sysSbrk incr).2.mm := by
  by_cases hlarge : totalPages < k.breakAfter incr / pageSize
  . rw [sysSbrk_of_large hlarge, sysSbrk_of_large (k := { k with mm := mm }) hlarge]
    exact ⟨rfl, h⟩
  rcases lt_trichotomy (clampIncr k.currentBreak incr) 0 with hneg | hzero | hpos
  . obtain ⟨hret, hmm⟩ := sysSbrk_of_neg hlarge hneg
    obtain ⟨hret', hmm'⟩ := sysSbrk_of_neg (k := { k with mm := mm }) hlarge hneg
    have haccesses := sbrkAccesses_of_neg hlarge hneg
    obtain ⟨hsame, hafter⟩ := sbrkShrink_agree h (fun p hp => haccesses ▸ hp)
    rw [hret, hret', hmm, hmm']
    refine ⟨?_, hafter⟩
    unfold callShrink
    rw [← hsame]
    rfl
  . rw [sysSbrk_of_zero hlarge hzero, sysSbrk_of_zero (k := { k with mm := mm }) hlarge hzero]
    exact ⟨rfl, h⟩
  . obtain ⟨hret, hmm⟩ := sysSbrk_of_pos hlarge hpos
    obtain ⟨hret', hmm'⟩ := sysSbrk_of_pos (k := { k with mm := mm }) hlarge hpos
    have haccesses := sbrkAccesses_of_pos hlarge hpos
    obtain ⟨hsame, hafter⟩ := sbrkGrow_agree h (fun p hp => haccesses ▸ hp)
    rw [hret, hret', hmm, hmm']
    refine ⟨?_, hafter⟩
    unfold callGrow
    rw [← hsame]
    rfl

end Call

end Kernel

open Kernel

/--
The calls of a process access entries of the heap only, exactly in the runs in which the break stays out of
the page past the limit.
-/
theorem allowed_accessesHeap_iff {k : Kernel} (h : k.BreakInRange) (es : List HeapEvent)
    : Run.Allowed heapStep (HeapEvent.OfCall AccessesHeap) es k ↔
        Run.Allowed heapStep (HeapEvent.OfCall StaysInTable) es k := by
  apply Run.allowed_iff_allowed (I := BreakInRange) _ _ h
  . intro e k hk
    cases e with
    | sbrk incr => exact accessesHeap_iff hk incr.le_toInt incr.toInt_lt
    | other k' => exact Iff.rfl
  . intro e k k' hk _ hstep
    cases e with
    | sbrk incr =>
      cases hstep
      exact breakInRange_sysSbrk hk _
    | other k'' =>
      obtain ⟨hsame, ⟨⟩⟩ := Option.ite_none_right_eq_some.mp hstep
      unfold BreakInRange
      rw [hsame]
      exact hk

theorem allowed_accessesHeap_iff_first
    : ∃ s, boot (fun _ _ => 0) = some s ∧ s.currentBreak = heapStart ∧
        (Run.Allowed heapStep (HeapEvent.OfCall AccessesHeap) [.sbrk 10, .sbrk (-20)] s.toKernel ↔
          Run.Allowed heapStep (HeapEvent.OfCall StaysInTable) [.sbrk 10, .sbrk (-20)] s.toKernel) := by
  obtain ⟨s, hs⟩ := exists_boot fun _ _ => 0
  exact ⟨s, hs, (heap_boot s hs).1, allowed_accessesHeap_iff (breakInside_boot hs).range _⟩

theorem not_accessesHeap_first
    : ∃ s, boot (fun _ _ => 0) = some s ∧ s.currentBreak = heapStart ∧
        ¬Run.Allowed heapStep (HeapEvent.OfCall AccessesHeap) [.sbrk 3031041] s.toKernel := by
  have hpast : ∀ s ∈ boot fun _ _ => 0, totalPages ∈ s.sbrkAccesses 3031041 := by
    decide +kernel
  obtain ⟨s, hs⟩ := exists_boot fun _ _ => 0
  refine ⟨s, hs, (heap_boot s hs).1, ?_⟩
  rintro ⟨hheap, -⟩
  have hincr : (3031041 : BitVec 32).toInt = 3031041 := by decide
  have hpage : HeapPage totalPages := by
    apply hheap
    rw [hincr]
    exact hpast s hs
  exact absurd hpage (by decide)

end Zeos
