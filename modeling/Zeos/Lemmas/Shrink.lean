import Zeos.Lemmas.Sbrk

/-!
`sys_sbrk` does not give back the first page past the new break.
-/

namespace Zeos

namespace Kernel

variable {k : Kernel} {incr : Int}

/--
A shrinking call does what it should just if it has nothing to give back.
-/
theorem heapShrunk_iff (h : k.HeapMapped) (hincr : incr < 0) (hint : -2 ^ 31 ≤ incr)
    (hsuccess : 0 ≤ (k.sysSbrk incr).1)
    : HeapShrunk k (k.sysSbrk incr).2 ↔
        NoPageBetween (lowered k.currentBreak incr) k.currentBreak := by
  obtain ⟨hle, hbreak', hpt, hmm⟩ := sysSbrk_shrink h.range hincr hint hsuccess
  have hstart := heapStart_le_lowered k.currentBreak incr
  have hentry' : ∀ p, (k.sysSbrk incr).2.heapEntry p =
      (k.sysSbrk incr).2.mm.pagusrTable (k.getPT k.current + p) := by
    intro p
    unfold heapEntry
    rw [hpt]
  constructor
  . intro hshrunk p hheap hnew
    by_contra hold
    -- The first page past the new break is one that the loop does not reach.
    let q := pageAfter (lowered k.currentBreak incr)
    have hqp : q ≤ p := by
      by_contra hlt
      have := lt_pageAfter.mp (not_le.mp hlt)
      omega
    have hq : HeapPage q := ⟨pagLogInitHeap_le_pageAfter hstart, lt_of_le_of_lt hqp hheap.2⟩
    have hpast : ¬q * pageSize < lowered k.currentBreak incr := by
      rw [← lt_pageAfter]
      exact lt_irrefl q
    have hsame : (k.sysSbrk incr).2.heapEntry q = k.heapEntry q := by
      rw [hentry', hmm]
      exact sbrkShrink_table le_rfl
    have hmapped : (k.heapEntry q).present := by
      rw [h.present q hq]
      unfold pageSize at *
      omega
    rw [← hsame, hshrunk.present q hq, hbreak'] at hmapped
    exact hpast hmapped
  . intro hnone
    have hsame : (k.sysSbrk incr).2.mm = k.mm := by
      rw [hmm]
      apply sbrkShrink_eq
      by_contra hlt
      let q := pageAfter (lowered k.currentBreak incr)
      have hq : q < k.currentBreak / pageSize := by
        show pageAfter _ < _
        omega
      have hend := h.range.2
      have hheap : HeapPage q := by
        refine ⟨pagLogInitHeap_le_pageAfter hstart, ?_⟩
        unfold totalPages pageSize at *
        omega
      have hnew : lowered k.currentBreak incr ≤ q * pageSize := by
        by_contra hnot
        exact lt_irrefl q (lt_pageAfter.mpr (not_le.mp hnot))
      have hold := hnone q hheap hnew
      unfold pageSize at *
      omega
    have hentry : ∀ p, (k.sysSbrk incr).2.heapEntry p = k.heapEntry p := by
      intro p
      rw [hentry', hsame]
      rfl
    apply h.shrunk hsame hentry
    intro p hheap
    rw [hbreak']
    constructor
    . intro hnew
      exact lt_of_lt_of_le hnew hle
    . intro hold
      by_contra hnew
      exact absurd hold (not_lt.mpr (hnone p hheap (not_lt.mp hnew)))

def withFirstPage (k : Kernel) : Kernel :=
  let mm := (k.mm.setPhysMem 800 .usedFrame).setSsPag (k.getPT k.current) pagLogInitHeap 800
  ({ k with mm := mm } : Kernel).setTask k.current fun ts => { ts with processBreak := heapStart + 10 }

theorem withFirstPage_boot : ∀ s ∈ boot fun _ _ => 0,
    (withFirstPage s.toKernel).currentBreak = heapStart + 10 ∧
      (∀ p < totalPages, HeapPage p →
        ((withFirstPage s.toKernel).heapEntry p).present = decide (p = pagLogInitHeap)) ∧
      (withFirstPage s.toKernel).mm.physMem
        ((withFirstPage s.toKernel).heapEntry pagLogInitHeap).pbaseAddr = .usedFrame ∧
      0 ≤ ((withFirstPage s.toKernel).sysSbrk (-5)).1 ∧
      0 ≤ ((withFirstPage s.toKernel).sysSbrk (-10)).1 := by
  decide +kernel

theorem heapMapped_withFirstPage {s : Sys} (hs : s ∈ boot fun _ _ => 0)
    : (withFirstPage s.toKernel).HeapMapped := by
  obtain ⟨hbreak, hpresent, hused, -⟩ := withFirstPage_boot s hs
  have hfirst : ∀ p, HeapPage p → ((withFirstPage s.toKernel).heapEntry p).present →
      p = pagLogInitHeap := by
    intro p hp hmapped
    rw [hpresent p hp.2 hp] at hmapped
    exact of_decide_eq_true hmapped
  constructor
  . unfold BreakInRange
    rw [hbreak]
    decide
  . intro p hp
    rw [hpresent p hp.2 hp, hbreak, decide_eq_true_iff]
    have := hp.1
    unfold heapStart pageSize
    omega
  . intro p hp hmapped
    rw [hfirst p hp hmapped]
    exact hused
  . intro p q hp hq hmapped hmapped' _
    rw [hfirst p hp hmapped, hfirst q hq hmapped']

theorem heapShrunk_iff_within
    : ∃ s, boot (fun _ _ => 0) = some s ∧
        (HeapShrunk (withFirstPage s.toKernel) ((withFirstPage s.toKernel).sysSbrk (-5)).2 ↔
          NoPageBetween (lowered (withFirstPage s.toKernel).currentBreak (-5))
            (withFirstPage s.toKernel).currentBreak) := by
  obtain ⟨s, hs⟩ := exists_boot fun _ _ => 0
  obtain ⟨-, -, -, hsuccess, -⟩ := withFirstPage_boot s hs
  exact ⟨s, hs, heapShrunk_iff (heapMapped_withFirstPage hs) (by decide) (by decide) hsuccess⟩

theorem not_heapShrunk_first
    : ∃ s, boot (fun _ _ => 0) = some s ∧ (withFirstPage s.toKernel).HeapMapped ∧
        0 ≤ ((withFirstPage s.toKernel).sysSbrk (-10)).1 ∧
        ¬HeapShrunk (withFirstPage s.toKernel) ((withFirstPage s.toKernel).sysSbrk (-10)).2 := by
  have hboot : ∀ s ∈ boot fun _ _ => 0,
      (((withFirstPage s.toKernel).sysSbrk (-10)).2.heapEntry pagLogInitHeap).present = true ∧
      ¬pagLogInitHeap * pageSize < ((withFirstPage s.toKernel).sysSbrk (-10)).2.currentBreak := by
    decide +kernel
  obtain ⟨s, hs⟩ := exists_boot fun _ _ => 0
  obtain ⟨-, -, -, -, hsuccess⟩ := withFirstPage_boot s hs
  obtain ⟨hpresent, hpast⟩ := hboot s hs
  refine ⟨s, hs, heapMapped_withFirstPage hs, hsuccess, ?_⟩
  intro hshrunk
  exact hpast ((hshrunk.present pagLogInitHeap (by decide)).mp hpresent)

end Kernel

end Zeos
