import Zeos.Spec.Heap
import Zeos.Lemmas.Mm
import Zeos.Lemmas.Boot

/-!
`sys_sbrk` maps a page that is present already, and leaves alone a page that is not.
-/

namespace Zeos

namespace Kernel

section Grow

variable {tp n i : Nat} {iPage aux : Int} {mm mm' : Mm}

theorem sbrkGrow_succ_of_present (hpresent : (mm.pagusrTable (tp + i)).present)
    (h : sbrkGrow tp iPage aux (n + 1) i mm = (true, mm'))
    : ∃ f, mm.physMem f = .freeFrame ∧
        sbrkGrow tp iPage aux n (i + 1) ((mm.setPhysMem f .usedFrame).setSsPag tp i f) =
          (true, mm') := by
  unfold sbrkGrow at h
  rw [if_pos hpresent] at h
  split at h
  next f mm₁ halloc =>
    obtain ⟨hfree, -, -, -, rfl⟩ := Mm.allocFrame_eq_some halloc
    exact ⟨f, hfree, h⟩
  next => cases h

theorem sbrkGrow_succ_of_not_present (hpresent : (mm.pagusrTable (tp + i)).present = false)
    : sbrkGrow tp iPage aux (n + 1) i mm = sbrkGrow tp iPage aux n (i + 1) mm := by
  rw [sbrkGrow, if_neg (by simp [hpresent])]

theorem sbrkGrow_not_present (h : sbrkGrow tp iPage aux n i mm = (true, mm')) {j : Nat}
    (hj : (mm.pagusrTable j).present = false) : mm'.pagusrTable j = mm.pagusrTable j := by
  induction n generalizing i mm with
  | zero =>
    cases h
    rfl
  | succ n ih =>
    cases hpresent : (mm.pagusrTable (tp + i)).present with
    | false =>
      rw [sbrkGrow_succ_of_not_present hpresent] at h
      exact ih h hj
    | true =>
      obtain ⟨f, -, h⟩ := sbrkGrow_succ_of_present hpresent h
      have hne : j ≠ tp + i := by
        rintro rfl
        rw [hpresent] at hj
        cases hj
      have hsame : ((mm.setPhysMem f .usedFrame).setSsPag tp i f).pagusrTable j =
          mm.pagusrTable j := by
        simp [Mm.setSsPag, Mm.setEntry, Mm.setPhysMem, hne]
      rw [ih h (by rw [hsame]; exact hj), hsame]

theorem sbrkGrow_used (h : sbrkGrow tp iPage aux n i mm = (true, mm')) {f : Nat}
    (hf : mm.physMem f = .usedFrame) : mm'.physMem f = .usedFrame := by
  induction n generalizing i mm with
  | zero =>
    cases h
    exact hf
  | succ n ih =>
    cases hpresent : (mm.pagusrTable (tp + i)).present with
    | false =>
      rw [sbrkGrow_succ_of_not_present hpresent] at h
      exact ih h hf
    | true =>
      obtain ⟨g, -, h⟩ := sbrkGrow_succ_of_present hpresent h
      apply ih h
      simp only [Mm.setSsPag, Mm.setEntry, Mm.setPhysMem]
      split
      next => rfl
      next => exact hf

theorem sbrkGrow_takes (h : sbrkGrow tp iPage aux n i mm = (true, mm')) {j : Nat} (hle : i ≤ j)
    (hlt : j < i + n) (hj : (mm.pagusrTable (tp + j)).present)
    : ∃ f, mm.physMem f = .freeFrame ∧ mm'.physMem f = .usedFrame := by
  induction n generalizing i with
  | zero => omega
  | succ n ih =>
    cases hpresent : (mm.pagusrTable (tp + i)).present with
    | false =>
      rw [sbrkGrow_succ_of_not_present hpresent] at h
      have hne : j ≠ i := by
        rintro rfl
        rw [hpresent] at hj
        cases hj
      exact ih h (by omega) (by omega)
    | true =>
      obtain ⟨f, hfree, h⟩ := sbrkGrow_succ_of_present hpresent h
      refine ⟨f, hfree, sbrkGrow_used h ?_⟩
      simp [Mm.setSsPag, Mm.setEntry, Mm.setPhysMem]

theorem sbrkGrow_eq (hnone : ∀ j, i ≤ j → j < i + n → (mm.pagusrTable (tp + j)).present = false)
    : sbrkGrow tp iPage aux n i mm = (true, mm) := by
  induction n generalizing i with
  | zero => rfl
  | succ n ih =>
    rw [sbrkGrow_succ_of_not_present (hnone i (by omega) (by omega))]
    exact ih fun j hle hlt => hnone j (by omega) (by omega)

end Grow

section Sbrk

variable {k : Kernel} {incr : Int}

theorem addUnsigned_eq (hrange : k.BreakInRange) (hincr : 0 < incr) (hint : incr < 2 ^ 31)
    : addUnsigned k.currentBreak incr = k.currentBreak + incr.toNat := by
  obtain ⟨hle, hlt⟩ := hrange
  unfold addUnsigned
  unfold totalPages pageSize at hlt
  rw [Int.emod_eq_of_lt (by omega) (by omega)]
  omega

def pageAfter (b : Nat) : Nat :=
  b / pageSize + if b % pageSize = 0 then 0 else 1

theorem lt_pageAfter {b p : Nat} : p < pageAfter b ↔ p * pageSize < b := by
  unfold pageAfter pageSize
  split
  next => omega
  next => omega

theorem sysSbrk_grow (hrange : k.BreakInRange) (hincr : 0 < incr) (hint : incr < 2 ^ 31)
    (hsuccess : 0 ≤ (k.sysSbrk incr).1)
    : (k.currentBreak + incr.toNat) / pageSize ≤ totalPages ∧ ∃ mm' : Mm, ∃ aux : Int,
        sbrkGrow (k.getPT k.current) (k.currentBreak / pageSize : Nat) aux
          (pageAfter (k.currentBreak + incr.toNat) - k.currentBreak / pageSize)
          (k.currentBreak / pageSize) k.mm = (true, mm') ∧
        (k.sysSbrk incr).2 = ({ k with mm := mm' } : Kernel).setTask k.current fun ts =>
          { ts with processBreak := k.currentBreak + incr.toNat } := by
  have hadd := addUnsigned_eq hrange hincr hint
  have hclamp : clampIncr k.currentBreak incr = incr := by
    unfold clampIncr
    rw [hadd, if_neg]
    have := hrange.1
    omega
  have hbreak : (k.task k.current).processBreak = k.currentBreak := rfl
  unfold sysSbrk at hsuccess ⊢
  simp only [hbreak, hclamp, hadd] at hsuccess ⊢
  by_cases hpages : (k.currentBreak + incr.toNat) / pageSize > totalPages
  . rw [if_pos hpages] at hsuccess
    unfold eNOMEM at hsuccess
    omega
  . rw [if_neg hpages, if_pos hincr] at hsuccess ⊢
    split at hsuccess
    next mm' hgrow => exact ⟨Nat.le_of_not_gt hpages, mm', _, hgrow, rfl⟩
    next =>
      unfold eNOMEM at hsuccess
      dsimp only at hsuccess
      omega

theorem heapStart_le_addUnsigned (b : Nat) (incr : Int)
    : heapStart ≤ addUnsigned b (clampIncr b incr) := by
  unfold clampIncr
  split
  next =>
    have hstart : addUnsigned b ((heapStart - b : Int).bmod (2 ^ 32)) = heapStart := by
      have hmod : (2 : Int) ^ 32 = (2 ^ 32 : Nat) := rfl
      have hsum : (b : Int) + (heapStart - b) = heapStart := by omega
      unfold addUnsigned
      rw [hmod, Int.add_emod, Int.bmod_emod, ← Int.add_emod, hsum]
      rfl
    omega
  next => omega

theorem breakInRange_sysSbrk (hrange : k.BreakInRange) (incr : Int)
    : (k.sysSbrk incr).2.BreakInRange := by
  have hstart := heapStart_le_addUnsigned (k.task k.current).processBreak incr
  have hset : ∀ (k' : Kernel) b, k'.current = k.current → heapStart ≤ b → b / pageSize ≤ totalPages →
      (k'.setTask k.current fun ts => { ts with processBreak := b }).BreakInRange := by
    intro k' b hcurrent hle hlt
    have hbreak : (k'.setTask k.current fun ts => { ts with processBreak := b }).currentBreak = b := by
      simp [currentBreak, hcurrent]
    unfold BreakInRange
    rw [hbreak]
    unfold totalPages pageSize at *
    omega
  unfold sysSbrk
  dsimp only
  split
  next => exact hrange
  next hpages =>
    split
    next =>
      split
      next => exact hset _ _ rfl hstart (Nat.le_of_not_gt hpages)
      next => exact hrange
    next =>
      split
      next =>
        generalize sbrkShrink _ _ _ _ _ = x
        split
        next => exact hset _ _ rfl hstart (Nat.le_of_not_gt hpages)
        next => exact hset _ _ rfl (Nat.le_refl _) (by decide)
      next => exact hrange

section SameMemory

variable {k' : Kernel} (h : k.HeapMapped) (hmm : k'.mm = k.mm)
  (hentry : ∀ p, k'.heapEntry p = k.heapEntry p)
  (hpages : ∀ p, HeapPage p → (p * pageSize < k'.currentBreak ↔ p * pageSize < k.currentBreak))
include h hmm hentry hpages

theorem HeapMapped.grown : HeapGrown k k' := by
  have hnew : ∀ p, ¬NewPage k k' p := by
    rintro p ⟨hheap, hle, hlt⟩
    exact absurd ((hpages p hheap).mp hlt) (not_lt.mpr hle)
  constructor
  . intro p hheap
    rw [hentry, h.present p hheap, hpages p hheap]
  . intro p _ _
    exact hentry p
  . intro p hp
    exact absurd hp (hnew p)
  . intro p q
    rw [hentry, hentry]
    exact h.distinct p q
  . intro f _
    rw [hmm]
  . intro i _
    rw [hmm]

theorem HeapMapped.shrunk : HeapShrunk k k' := by
  have hdropped : ∀ p, ¬DroppedPage k k' p := by
    rintro p ⟨hheap, hle, hlt⟩
    exact absurd ((hpages p hheap).mpr hlt) (not_lt.mpr hle)
  constructor
  . intro p hheap
    rw [hentry, h.present p hheap, hpages p hheap]
  . intro p _ _
    exact hentry p
  . intro p hp
    exact absurd hp (hdropped p)
  . intro f _
    rw [hmm]
  . intro i _
    rw [hmm]

end SameMemory

/--
What a growing call does to the heap: it maps no page that was not mapped, and takes a frame for each page
that was.
-/
theorem heapGrown_iff (h : k.HeapMapped) (hincr : 0 < incr) (hint : incr < 2 ^ 31)
    (hsuccess : 0 ≤ (k.sysSbrk incr).1)
    : HeapGrown k (k.sysSbrk incr).2 ↔
        totalPages * pageSize ≤ k.currentBreak ∧ (k.heapEntry totalPages).present = false := by
  obtain ⟨hpages, mm', aux, hgrow, hk'⟩ := sysSbrk_grow h.range hincr hint hsuccess
  have hbreak' : (k.sysSbrk incr).2.currentBreak = k.currentBreak + incr.toNat := by
    rw [hk']
    simp [currentBreak]
  have hentry' : ∀ p, (k.sysSbrk incr).2.heapEntry p = mm'.pagusrTable (k.getPT k.current + p) := by
    intro p
    rw [hk']
    simp [heapEntry, getPT, getDIR]
  have hmm' : (k.sysSbrk incr).2.mm = mm' := by
    rw [hk']
    rfl
  have hfirst : ∀ p, k.currentBreak / pageSize ≤ p → p * pageSize < k.currentBreak + incr.toNat →
      k.currentBreak / pageSize ≤ p ∧
        p < k.currentBreak / pageSize +
          (pageAfter (k.currentBreak + incr.toNat) - k.currentBreak / pageSize) := by
    intro p hle hlt
    have := lt_pageAfter.mpr hlt
    omega
  constructor
  . intro hgrown
    have hnew : ∀ p, ¬NewPage k (k.sysSbrk incr).2 p := by
      rintro p ⟨hheap, hle, hlt⟩
      have hnot : (k.heapEntry p).present = false := by
        rw [Bool.eq_false_iff, ne_eq, h.present p hheap]
        omega
      have hmapped := (hgrown.present p hheap).mpr hlt
      rw [hentry', sbrkGrow_not_present hgrow hnot] at hmapped
      rw [heapEntry, hmapped] at hnot
      cases hnot
    have hnone : ∀ p, k.currentBreak / pageSize ≤ p → p * pageSize < k.currentBreak + incr.toNat →
        (k.heapEntry p).present = false := by
      intro p hle hlt
      rw [Bool.eq_false_iff]
      intro hpresent
      obtain ⟨hle, hlt⟩ := hfirst p hle hlt
      obtain ⟨f, hfree, hused⟩ := sbrkGrow_takes hgrow hle hlt hpresent
      have hsame := hgrown.physMem f (fun p hp => absurd hp (hnew p))
      rw [hmm', hused, hfree] at hsame
      cases hsame
    have hrange := h.range
    have hpast : totalPages * pageSize ≤ k.currentBreak := by
      by_contra hlt
      have hheap : HeapPage (k.currentBreak / pageSize) := by
        unfold BreakInRange heapStart at hrange
        unfold HeapPage
        unfold pageSize totalPages at *
        omega
      have hnot := hnone _ (Nat.le_refl _) (by unfold pageSize; omega)
      rw [Bool.eq_false_iff, ne_eq, h.present _ hheap] at hnot
      apply hnew _ ⟨hheap, by omega, ?_⟩
      rw [hbreak']
      unfold pageSize
      omega
    refine ⟨hpast, hnone totalPages ?_ (by omega)⟩
    have := hrange.2
    unfold totalPages pageSize at *
    omega
  . rintro ⟨hpast, hnot⟩
    have hnone : ∀ j, k.currentBreak / pageSize ≤ j → j < k.currentBreak / pageSize +
        (pageAfter (k.currentBreak + incr.toNat) - k.currentBreak / pageSize) →
        (k.mm.pagusrTable (k.getPT k.current + j)).present = false := by
      intro j hle hlt
      have hlast : j = totalPages := by
        have hj := lt_pageAfter.mp (by omega : j < pageAfter (k.currentBreak + incr.toNat))
        unfold totalPages pageSize at *
        omega
      rw [hlast]
      exact hnot
    have hsame : mm' = k.mm := by
      rw [sbrkGrow_eq hnone, Prod.mk.injEq] at hgrow
      exact hgrow.2.symm
    subst hsame
    apply h.grown hmm' hentry'
    rintro p ⟨-, hp⟩
    rw [hbreak']
    unfold totalPages pageSize at *
    omega

end Sbrk

section Boot

theorem heapMapped_of_none {k : Kernel} (hbreak : k.currentBreak = heapStart)
    (hnone : ∀ p < totalPages, HeapPage p → (k.heapEntry p).present = false) : k.HeapMapped where
  range := by
    unfold BreakInRange
    rw [hbreak]
    decide
  present p hp := by
    rw [hnone p hp.2 hp, hbreak]
    have := hp.1
    unfold heapStart
    simp only [Bool.false_eq_true, false_iff]
    unfold pageSize
    omega
  used p hp hpresent := by
    rw [hnone p hp.2 hp] at hpresent
    cases hpresent
  distinct p q hp _ hpresent := by
    rw [hnone p hp.2 hp] at hpresent
    cases hpresent

theorem heap_boot : ∀ s ∈ boot fun _ _ => 0, s.currentBreak = heapStart ∧
    ∀ p < totalPages, HeapPage p → (s.heapEntry p).present = false := by
  decide +kernel

theorem heapGrown_iff_first
    : ∃ s, boot (fun _ _ => 0) = some s ∧
        (HeapGrown s.toKernel (s.sysSbrk 10).2 ↔
          totalPages * pageSize ≤ s.currentBreak ∧ (s.heapEntry totalPages).present = false) := by
  have hboot : ∀ s ∈ boot fun _ _ => 0, 0 ≤ (s.sysSbrk 10).1 := by
    decide +kernel
  obtain ⟨s, hs⟩ := exists_boot fun _ _ => 0
  obtain ⟨hbreak, hnone⟩ := heap_boot s hs
  exact ⟨s, hs, heapGrown_iff (heapMapped_of_none hbreak hnone) (by decide) (by decide) (hboot s hs)⟩

theorem not_heapGrown_first
    : ∃ s, boot (fun _ _ => 0) = some s ∧ s.HeapMapped ∧ 0 ≤ (s.sysSbrk 10).1 ∧
        ¬HeapGrown s.toKernel (s.sysSbrk 10).2 := by
  have hboot : ∀ s ∈ boot fun _ _ => 0, 0 ≤ (s.sysSbrk 10).1 ∧
      ((s.sysSbrk 10).2.heapEntry pagLogInitHeap).present = false ∧
      pagLogInitHeap * pageSize < (s.sysSbrk 10).2.currentBreak := by
    decide +kernel
  obtain ⟨s, hs⟩ := exists_boot fun _ _ => 0
  obtain ⟨hbreak, hnone⟩ := heap_boot s hs
  obtain ⟨hsuccess, hnot, hlt⟩ := hboot s hs
  refine ⟨s, hs, heapMapped_of_none hbreak hnone, hsuccess, ?_⟩
  intro hgrown
  have hpresent := (hgrown.present pagLogInitHeap (by decide)).mpr hlt
  rw [hnot] at hpresent
  cases hpresent

end Boot

end Kernel

end Zeos
