import Zeos.Spec.Exit
import Zeos.Lemmas.Undisturbed
import Zeos.Lemmas.Window

/-!
`sys_exit` gives back the data pages, but neither the heap nor the frame that `free_frame` does not take.
-/

namespace Zeos

namespace Mm

def Takes (f : Nat) : Prop :=
  numPagKernel < f ∧ f < totalPages

theorem physMem_freeFrame (mm : Mm) (f g : Nat)
    : (mm.freeFrame f).physMem g = .freeFrame ∧ g = f ∧ Takes g ∨
        (mm.freeFrame f).physMem g = mm.physMem g ∧ (g = f → ¬Takes g) := by
  unfold freeFrame
  split
  next htakes =>
    rw [physMem_setPhysMem]
    by_cases heq : g = f
    . rw [if_pos heq, heq]
      exact .inl ⟨rfl, rfl, htakes⟩
    . rw [if_neg heq]
      exact .inr ⟨rfl, fun h => absurd h heq⟩
  next hnot =>
    refine .inr ⟨rfl, ?_⟩
    rintro rfl
    exact hnot

structure FreedPages (pt n : Nat) (mm mm' : Mm) : Prop where
  emptied : ∀ p < n, mm'.pagusrTable (pt + (pagLogInitData + p)) = .zero
  table : ∀ j, (∀ p < n, j ≠ pt + (pagLogInitData + p)) → mm'.pagusrTable j = mm.pagusrTable j
  freed : ∀ p < n, Takes (mm.getFrame pt (pagLogInitData + p)) →
    mm'.physMem (mm.getFrame pt (pagLogInitData + p)) = .freeFrame
  kept : ∀ f, (∀ p < n, mm.getFrame pt (pagLogInitData + p) = f → ¬Takes f) →
    mm'.physMem f = mm.physMem f

theorem FreedPages.succ {pt n : Nat} {mm mm' : Mm} (h : FreedPages pt n mm mm')
    : FreedPages pt (n + 1) mm ((mm'.freeFrame (mm'.getFrame pt (pagLogInitData + n))).delSsPag pt
        (pagLogInitData + n)) := by
  have hframe : mm'.getFrame pt (pagLogInitData + n) = mm.getFrame pt (pagLogInitData + n) :=
    congrArg PageTableEntry.pbaseAddr (h.table _ fun p hp => by omega)
  have hphys : ∀ f, ((mm'.freeFrame (mm'.getFrame pt (pagLogInitData + n))).delSsPag pt
      (pagLogInitData + n)).physMem f =
        (mm'.freeFrame (mm.getFrame pt (pagLogInitData + n))).physMem f := by
    intro f
    rw [hframe]
    rfl
  constructor
  . intro p hp
    rw [pagusrTable_delSsPag, pagusrTable_freeFrame]
    split
    next => rfl
    next hne => exact h.emptied p (by omega)
  . intro j hj
    rw [pagusrTable_delSsPag, if_neg (hj n (by omega)), pagusrTable_freeFrame]
    exact h.table j fun p hp => hj p (by omega)
  . intro p hp htakes
    rw [hphys]
    rcases physMem_freeFrame mm' (mm.getFrame pt (pagLogInitData + n))
      (mm.getFrame pt (pagLogInitData + p)) with ⟨hfree, -⟩ | ⟨hsame, hnot⟩
    . exact hfree
    . rw [hsame]
      rcases Nat.lt_succ_iff_lt_or_eq.mp hp with hlt | rfl
      . exact h.freed p hlt htakes
      . exact absurd htakes (hnot rfl)
  . intro f hf
    rw [hphys]
    rcases physMem_freeFrame mm' (mm.getFrame pt (pagLogInitData + n)) f
      with ⟨-, heq, htakes⟩ | ⟨hsame, -⟩
    . exact absurd htakes (hf n (by omega) heq.symm)
    . rw [hsame]
      exact h.kept f fun p hp => hf p (by omega)

theorem freedPages_freeUserPages (pt : Nat) (mm : Mm)
    : FreedPages pt numPagData mm (Kernel.freeUserPages pt mm) := by
  unfold Kernel.freeUserPages
  generalize numPagData = n
  induction n with
  | zero =>
    refine ⟨?_, fun _ _ => rfl, ?_, fun _ _ => rfl⟩
    . intro p hp
      omega
    . intro p hp
      omega
  | succ n ih =>
    rw [List.range_succ, List.foldl_append]
    exact ih.succ

end Mm

namespace Sys

theorem mm_sysExit {s s' : Sys} (h : s.sysExit = some s')
    : s'.mm = if s.refsCurrent = 1 then Kernel.freeUserPages (s.getPT s.current) s.mm else s.mm := by
  have hlast : s.refsCurrent - 1 = 0 ↔ s.refsCurrent = 1 := by omega
  rw [(Undisturbed.sysExit h).mm]
  unfold Kernel.releaseDIR
  dsimp only
  rw [Kernel.setRefs_refsDIR, if_pos rfl]
  unfold Kernel.refsCurrent at *
  simp only [hlast]
  split
  next => rfl
  next => rfl

end Sys

namespace Kernel

variable {k k' : Kernel}

theorem Writable.data_or_heap (h : k.HoldsFrames) {page : Nat} (hpage : k.Writable page)
    : (∃ p < numPagData, page = pagLogInitData + p) ∨ pagLogInitHeap ≤ page := by
  rcases h.own page hpage with ⟨hle, hlt⟩ | ⟨hheap, -⟩
  . left
    refine ⟨page - pagLogInitData, ?_, by omega⟩
    unfold pagLogInitHeap at hlt
    omega
  . exact .inr hheap.1

theorem HoldsFrames.data (h : k.HoldsFrames) {p : Nat} (hp : p < numPagData)
    : k.Writable (pagLogInitData + p) ∨ ¬Mm.Takes (k.heapEntry (pagLogInitData + p)).pbaseAddr := by
  by_cases hpage : k.Writable (pagLogInitData + p)
  . exact .inl hpage
  . right
    rw [h.empty p hp hpage]
    rintro ⟨hlt, -⟩
    exact absurd hlt (Nat.not_lt_zero _)

/--
The last process of a directory gives back what it has just if that is data pages, and none of them is in the
first frame of the pool.
-/
theorem givesBack_iff (h : k.HoldsFrames)
    (hmm : k'.mm = freeUserPages (k.getPT k.current) k.mm) : GivesBack k k' ↔ k.HoldsData := by
  have hfree := Mm.freedPages_freeUserPages (k.getPT k.current) k.mm
  rw [← hmm] at hfree
  have hother : ∀ page, (∀ p < numPagData, page ≠ pagLogInitData + p) →
      k'.mm.pagusrTable (k.getPT k.current + page) = k.heapEntry page := by
    intro page hpage
    apply hfree.table
    intro p hp heq
    exact hpage p hp (by omega)
  constructor
  . intro hback page hpage
    constructor
    . by_contra hheap
      apply hback.emptied page hpage.1
      rw [hother page]
      . exact hpage.2
      . intro p hp
        unfold pagLogInitHeap at hheap
        omega
    . intro hfirst
      obtain ⟨-, hused⟩ := h.pool page hpage
      have hfreed := hback.freed page hpage
      rw [hfirst] at hused hfreed
      rw [hfree.kept numPagKernel fun p hp _ htakes => lt_irrefl _ htakes.1, hused] at hfreed
      cases hfreed
  . intro hdata
    constructor
    . intro page hpage
      obtain ⟨hlt, hnot⟩ := hdata page hpage
      obtain ⟨p, hp, rfl⟩ := (hpage.data_or_heap h).resolve_right (by omega)
      obtain ⟨⟨hle, hend, -⟩, -⟩ := h.pool _ hpage
      exact hfree.freed p hp ⟨lt_of_le_of_ne hle (Ne.symm hnot), hend⟩
    . intro page hlt hwritable
      by_cases hpage : ∃ p < numPagData, page = pagLogInitData + p
      . obtain ⟨p, hp, rfl⟩ := hpage
        rw [hfree.emptied p hp] at hwritable
        exact absurd hwritable (by decide)
      . rw [hother page fun p hp heq => hpage ⟨p, hp, heq⟩] at hwritable
        have hpage' : k.Writable page := ⟨hlt, hwritable⟩
        have := (hdata page hpage').1
        exact hpage ((hpage'.data_or_heap h).resolve_right (by omega))
    . intro f hf
      apply hfree.kept
      rintro p hp rfl
      exact (h.data hp).resolve_left fun hpage => hf _ hpage rfl

/--
A process that exits does with its memory what it must just if it shares its directory, or has data pages only,
none of them in the first frame of the pool.
-/
theorem releasesMemory_iff {s s' : Sys} (h : s.HoldsFrames) (hexit : s.sysExit = some s')
    : ReleasesMemory s.toKernel s'.toKernel ↔ (s.refsCurrent = 1 → s.HoldsData) := by
  have hmm := Sys.mm_sysExit hexit
  constructor
  . intro hreleases hone
    rw [if_pos hone] at hmm
    exact (givesBack_iff h hmm).mp (hreleases.last hone)
  . intro hdata
    constructor
    . intro hone
      rw [if_pos hone] at hmm
      exact (givesBack_iff h hmm).mpr (hdata hone)
    . intro hmore
      rw [if_neg (by omega)] at hmm
      constructor
      . rw [hmm]
      . intro page _
        rw [hmm]
        rfl

end Kernel

def lastUser (s : Sys) : Sys :=
  s.mapKernel fun k =>
    (k.setRefs (k.getDIRPosition k.current) 1).setTask k.current fun ts =>
      { ts with processBreak := heapStart + pageSize }

theorem holdsFrames_iff {k : Kernel} : k.HoldsFrames ↔
    (∀ page < totalPages, (k.heapEntry page).UserWritable → k.OwnPage page ∧
      PoolFrame (k.heapEntry page).pbaseAddr ∧
      k.mm.physMem (k.heapEntry page).pbaseAddr = .usedFrame) ∧
    ∀ p < numPagData, ¬k.Writable (pagLogInitData + p) → k.heapEntry (pagLogInitData + p) = .zero := by
  constructor
  . intro h
    refine ⟨?_, h.empty⟩
    intro page hlt hwritable
    exact ⟨h.own page ⟨hlt, hwritable⟩, h.pool page ⟨hlt, hwritable⟩⟩
  . rintro ⟨hpages, hempty⟩
    constructor
    . exact fun page hpage => (hpages page hpage.1 hpage.2).1
    . exact fun page hpage => (hpages page hpage.1 hpage.2).2
    . exact hempty

instance : DecidablePred Kernel.HoldsFrames :=
  fun _ => decidable_of_iff _ holdsFrames_iff.symm

theorem releasesMemory_iff_lastUser
    : ∃ s s', boot (fun _ _ => 0) = some s ∧ (lastUser s).sysExit = some s' ∧
        (Kernel.ReleasesMemory (lastUser s).toKernel s'.toKernel ↔
          ((lastUser s).refsCurrent = 1 → (lastUser s).HoldsData)) := by
  have hboot : ∀ s ∈ boot fun _ _ => 0,
      (lastUser s).HoldsFrames ∧ (lastUser s).sysExit.isSome := by
    decide +kernel
  obtain ⟨s, hs⟩ := exists_boot fun _ _ => 0
  obtain ⟨hframes, hexit⟩ := hboot s hs
  obtain ⟨s', hexit⟩ := Option.isSome_iff_exists.mp hexit
  exact ⟨s, s', hs, hexit, Kernel.releasesMemory_iff hframes hexit⟩

theorem not_releasesMemory_heapPage
    : ∃ s s', boot (fun _ _ => 0) = some s ∧ (lastUser (Sys.withHeapPage s)).HoldsFrames ∧
        (lastUser (Sys.withHeapPage s)).sysExit = some s' ∧
        ¬Kernel.ReleasesMemory (lastUser (Sys.withHeapPage s)).toKernel s'.toKernel := by
  have hboot : ∀ s ∈ boot fun _ _ => 0,
      (lastUser (Sys.withHeapPage s)).HoldsFrames ∧ (lastUser (Sys.withHeapPage s)).refsCurrent = 1 ∧
        (lastUser (Sys.withHeapPage s)).Writable pagLogInitHeap ∧
        ∃ s' ∈ (lastUser (Sys.withHeapPage s)).sysExit,
          s'.mm.physMem ((lastUser (Sys.withHeapPage s)).heapEntry pagLogInitHeap).pbaseAddr =
            .usedFrame := by
    decide +kernel
  obtain ⟨s, hs⟩ := exists_boot fun _ _ => 0
  obtain ⟨hframes, hone, hwritable, s', hexit, hused⟩ := hboot s hs
  refine ⟨s, s', hs, hframes, hexit, ?_⟩
  intro hreleases
  rw [(hreleases.last hone).freed _ hwritable] at hused
  cases hused

end Zeos
