import Zeos.Spec.Tlb
import Zeos.Lemmas.Child

/-!
`sys_fork` leaves translations of its windows behind when it runs out of frames: that way out has no
`set_cr3`.
-/

namespace Zeos

namespace Mm

variable {mm mm' : Mm} {d e : DirIx} {f n page : Nat} {table : Nat → Option Nat}
variable {kernel pages : List Nat}

theorem translation_eq (hpage : page < totalPages)
    : mm.translation (getPT e) page =
        if (mm.entry e page).present then some (mm.entry e page).pbaseAddr else none := by
  unfold translation entry
  simp only [hpage, true_and]

theorem translation_congr (h : ∀ page < totalPages, mm'.entry e page = mm.entry e page)
    : mm'.translation (getPT e) = mm.translation (getPT e) := by
  funext page
  by_cases hpage : page < totalPages
  . rw [translation_eq hpage, translation_eq hpage, h page hpage]
  . simp [translation, hpage]

theorem translation_eq_some (h : mm.translation (getPT e) page = some f)
    : page < totalPages ∧ (mm.entry e page).present ∧ (mm.entry e page).pbaseAddr = f := by
  unfold translation at h
  split at h
  next hpage =>
    cases h
    exact ⟨hpage.1, hpage.2, rfl⟩
  next => cases h

theorem most_accesses {pt : Nat} {c : Set (Nat × Nat)} (h : mm.translation pt = table)
    (hc : Tlb.Agrees table c) : Tlb.Agrees table (Tlb.most (mm.accesses pt pages) c) := by
  apply Tlb.most_agrees
  . intro op hop
    obtain ⟨page, -, rfl⟩ := List.mem_map.mp hop
    exact ⟨_, page, rfl, fun f hf => by rwa [h] at hf⟩
  . exact hc

theorem flush_notMem_accesses {pt : Nat} : .flush ∉ mm.accesses pt pages := by
  intro hmem
  obtain ⟨page, -, heq⟩ := List.mem_map.mp hmem
  cases heq

theorem flush_notMem_inheritDataOps {pt pageNew pageParent : Nat}
    : .flush ∉ Kernel.inheritDataOps kernel pt pageNew pageParent n mm := by
  induction n generalizing mm with
  | zero => exact flush_notMem_accesses
  | succ n ih =>
    unfold Kernel.inheritDataOps
    dsimp only
    rw [List.mem_append, not_or]
    refine ⟨flush_notMem_accesses, ?_⟩
    split
    next => simp
    next =>
      rw [List.mem_append, not_or]
      refine ⟨flush_notMem_accesses, ?_⟩
      split
      next => simp
      next => exact ih

theorem mem_copyPages_dest (start : Addr) (hpage : page < totalPages)
    : page ∈ copyPages start (BitVec.ofNat 32 (page * pageSize)) pageSize := by
  have haddr := toNat_pageAddr hpage (show 0 < pageSize by decide)
  unfold pageAddr at haddr
  refine List.mem_flatMap.mpr ⟨0, List.mem_range.mpr (by decide), ?_⟩
  rw [add_ofNat_zero, add_ofNat_zero]
  rw [Nat.add_zero] at haddr
  rw [haddr, Nat.mul_div_cancel _ (by decide)]
  simp

theorem mem_inheritDataOps (kernel : List Nat) {p : Nat} (hp : p < numPagData)
    (hround : p + (n + 1) = numPagData)
    (halloc : mm.allocFrame = (some f, mm.setPhysMem f .usedFrame))
    : .access ((mm.openWindow e d p f).translation (getPT e)) (pagLogInitHeap + p) ∈
        Kernel.inheritDataOps kernel (getPT e) (getPT d) (getPT e) (n + 1) mm := by
  have hi : numPagData - (n + 1) = p := by omega
  rw [Kernel.inheritDataOps, hi, halloc]
  refine List.mem_append_right _ (List.mem_append_left _ (List.mem_map.mpr ⟨_, ?_, rfl⟩))
  exact List.mem_append_right _ (mem_copyPages_dest _ (window_lt hp))

theorem translation_openWindow {p : Nat} (hp : p < numPagData)
    : (mm.openWindow e d p f).translation (getPT e) (pagLogInitHeap + p) = some f := by
  have hentry : (mm.openWindow e d p f).entry e (pagLogInitHeap + p) = ssEntry f := entry_window hp
  rw [translation_eq (window_lt hp), hentry]
  rfl

theorem inheritDataOps_of_noFreeFrame {pt pageNew pageParent : Nat} (h : mm.NoFreeFrame)
    : Kernel.inheritDataOps kernel pt pageNew pageParent (n + 1) mm = mm.accesses pt kernel := by
  rw [Kernel.inheritDataOps, h.allocFrame]
  exact List.append_nil _

end Mm

namespace Sys

variable {kernel : List Nat} {s s' : Sys} {new : Slot} {s₁ : Sys} {k k' : Kernel} {r : Int}
variable {c : Set (Nat × Nat)}

theorem forkOps_eq (htake : s.takeFree = some (new, s₁))
    (hdir : (s₁.copyTask new).allocateDIR new = some k)
    : s.forkOps kernel = s.mm.accesses (Mm.getPT s.cr3) kernel ++ k.inheritPagesOps kernel new := by
  unfold forkOps
  rw [if_neg (by rw [listEmpty_of_takeFree htake]; simp), htake]
  dsimp only
  rw [hdir]

theorem inheritPagesOps_eq (h : s.KeepsParent) (htake : s.takeFree = some (new, s₁))
    (hdir : (s₁.copyTask new).allocateDIR new = some k) {enough : Bool} {mm : Mm}
    (hpages : k.inheritPages new = some (enough, { k with mm := mm }))
    : k.inheritPagesOps kernel new =
        s.mm.accesses (s.getPT s.current) kernel ++
          (Kernel.inheritDataOps kernel (s.getPT s.current) (k.getPT new) (s.getPT s.current) numPagData
              (Kernel.inheritCode (k.getPT new) (s.getPT s.current) s.mm) ++
            if enough then .flush :: mm.accesses (s.getPT s.current) kernel else []) := by
  obtain ⟨-, hparent, hcr3, hmm⟩ := allocateDIR_child h htake hdir
  unfold Kernel.inheritPagesOps Kernel.getPT
  rw [hparent, hcr3, hmm, hpages]
  cases enough with
  | false => rfl
  | true =>
    unfold Kernel.getDIR at hparent
    dsimp only
    unfold Kernel.getDIR
    rw [hparent]
    rfl

theorem KeepsParent.used_of_translation (h : s.KeepsParent)
    (htable : ∀ page < totalPages, ∀ f, (s'.mm.translation (s.getPT s.current)) page = some f →
      s.mm.translation (s.getPT s.current) page = some f)
    (hused : ∀ f, s.mm.physMem f = .usedFrame → s'.mm.physMem f = .usedFrame) {page f : Nat}
    (hf : s'.mm.translation (s.getPT s.current) page = some f) : s'.mm.physMem f = .usedFrame := by
  obtain ⟨hpage, -⟩ := Mm.translation_eq_some hf
  obtain ⟨-, hpresent, rfl⟩ := Mm.translation_eq_some (htable page hpage f hf)
  exact hused _ (h.used page hpage hpresent)

theorem keepsTranslations_iff_most
    : KeepsTranslations kernel s s' c ↔ ∀ x ∈ Tlb.most (s.forkOps kernel) c,
        s'.mm.translation (s.getPT s.current) x.1 = some x.2 ∧ s'.mm.physMem x.2 = .usedFrame :=
  Tlb.forall_run_iff

theorem KeepsParent.keepsTranslations (h : s.KeepsParent)
    (htable : ∀ page < totalPages, ∀ f, s'.mm.translation (s.getPT s.current) page = some f →
      s.mm.translation (s.getPT s.current) page = some f)
    (hused : ∀ f, s.mm.physMem f = .usedFrame → s'.mm.physMem f = .usedFrame)
    (hmost : Tlb.Agrees (s'.mm.translation (s.getPT s.current)) (Tlb.most (s.forkOps kernel) c))
    : KeepsTranslations kernel s s' c := by
  rw [keepsTranslations_iff_most]
  rintro ⟨page, f⟩ hmem
  have hf := hmost page f hmem
  exact ⟨hf, h.used_of_translation htable hused hf⟩

theorem keepsTranslations_of_same (h : s.KeepsParent) (hmm : s'.mm = s.mm)
    (hc : Tlb.Agrees (s.mm.translation (s.getPT s.current)) c)
    (hops : s.forkOps kernel = s.mm.accesses (Mm.getPT s.cr3) kernel) : KeepsTranslations kernel s s' c := by
  apply h.keepsTranslations
  . intro page _ f hf
    rwa [hmm] at hf
  . intro f hf
    rwa [hmm]
  . rw [hops, hmm, h.cr3]
    exact Mm.most_accesses rfl hc

section Pages

variable (h : s.KeepsParent) (htake : s.takeFree = some (new, s₁))
  (hdir : (s₁.copyTask new).allocateDIR new = some k)
include h htake hdir

theorem keepsTranslations_of_noFreeFrame (hpages : k.inheritPages new = some (false, k'))
    (hmm : s'.mm = k'.mm) (hfull : s.mm.NoFreeFrame)
    (hc : Tlb.Agrees (s.mm.translation (s.getPT s.current)) c) : KeepsTranslations kernel s s' c := by
  obtain ⟨hde, -⟩ := allocateDIR_child h htake hdir
  obtain ⟨mm, hdata, rfl⟩ := inheritPages_eq_some h htake hdir hpages
  obtain ⟨hentry₀, hused₀⟩ := h.inheritCode hde
  have hphys := (Mm.memory_inheritCode (k.getDIR new) (s.getDIR s.current) s.mm).2
  have hfull₀ : (Kernel.inheritCode (Mm.getPT (k.getDIR new)) (Mm.getPT (s.getDIR s.current))
      s.mm).NoFreeFrame := by
    unfold Mm.NoFreeFrame
    rw [hphys]
    exact hfull
  have hmm₀ : mm = Kernel.inheritCode (Mm.getPT (k.getDIR new)) (Mm.getPT (s.getDIR s.current)) s.mm := by
    have hfirst := Mm.inheritData_succ_eq_some (n := 19) hde (by decide) hused₀ hdata
    rcases hfirst with ⟨-, -, hsame⟩ | ⟨f, halloc, -⟩
    . rwa [List.foldl_nil] at hsame
    . rw [hfull₀.allocFrame] at halloc
      cases halloc
  have htable₀ : mm.translation (s.getPT s.current) = s.mm.translation (s.getPT s.current) := by
    rw [hmm₀]
    exact Mm.translation_congr hentry₀
  change s'.mm = mm at hmm
  apply h.keepsTranslations
  . intro page _ f hf
    rwa [hmm, htable₀] at hf
  . intro f hf
    rw [hmm, hmm₀, hphys, hf]
  . rw [forkOps_eq htake hdir, inheritPagesOps_eq h htake hdir hpages, hmm]
    unfold Kernel.getPT at *
    rw [Mm.inheritDataOps_of_noFreeFrame hfull₀, ← hmm₀, if_neg (by simp), List.append_nil, h.cr3,
      Tlb.most_append, Tlb.most_append]
    apply Mm.most_accesses rfl
    apply Mm.most_accesses htable₀.symm
    apply Mm.most_accesses htable₀.symm
    rw [htable₀]
    exact hc

theorem keepsTranslations_of_enough (hpages : k.inheritPages new = some (true, k'))
    (hmm : s'.mm = k'.mm) : KeepsTranslations kernel s s' c := by
  obtain ⟨hde, -⟩ := allocateDIR_child h htake hdir
  obtain ⟨mm, hdata, rfl⟩ := inheritPages_eq_some h htake hdir hpages
  obtain ⟨hentry₀, hused₀⟩ := h.inheritCode hde
  obtain ⟨htable, -⟩ := Mm.inheritData_parent hde le_rfl hused₀ hdata
  obtain ⟨hcopies, -⟩ := Mm.inheritData_child hde le_rfl hused₀ hdata
  change s'.mm = mm at hmm
  apply h.keepsTranslations
  . intro page hpage f hf
    rw [hmm] at hf
    unfold Kernel.getPT at hf ⊢
    rw [Mm.translation_eq hpage, htable page hpage] at hf
    rw [Mm.translation_eq hpage]
    split at hf
    next => cases hf
    next => rwa [hentry₀ page hpage] at hf
  . intro f hf
    rw [hmm]
    apply hcopies.used
    rw [(Mm.memory_inheritCode _ _ _).2, hf]
  . rw [forkOps_eq htake hdir, inheritPagesOps_eq h htake hdir hpages, hmm, if_pos rfl, Tlb.most_append,
      Tlb.most_append, Tlb.most_append]
    exact Mm.most_accesses rfl (nofun)

/--
The frame of the first window is free again, and the window is closed, but its translation may be kept.
-/
theorem not_keepsTranslations (hpages : k.inheritPages new = some (false, k'))
    (hmm : s'.mm = k'.mm) (hsome : ¬s.mm.NoFreeFrame) : ¬KeepsTranslations kernel s s' c := by
  obtain ⟨hde, -⟩ := allocateDIR_child h htake hdir
  obtain ⟨mm, hdata, rfl⟩ := inheritPages_eq_some h htake hdir hpages
  obtain ⟨hentry₀, hused₀⟩ := h.inheritCode hde
  have hphys := (Mm.memory_inheritCode (k.getDIR new) (s.getDIR s.current) s.mm).2
  obtain ⟨htable, -⟩ := Mm.inheritData_parent hde le_rfl hused₀ hdata
  change s'.mm = mm at hmm
  have hfirst := Mm.inheritData_succ_eq_some (n := 19) hde (by decide) hused₀ hdata
  rcases hfirst with ⟨hfull, -⟩ | ⟨f, halloc, -⟩
  . unfold Mm.NoFreeFrame at hfull
    rw [hphys] at hfull
    exact absurd hfull hsome
  intro hkeeps
  have haccess := Mm.mem_inheritDataOps kernel (e := s.getDIR s.current) (d := k.getDIR new)
    (p := 0) (n := 19) (by decide) rfl halloc
  have hmem := Tlb.mem_most_of_access haccess Mm.flush_notMem_inheritDataOps
    (Mm.translation_openWindow (by decide))
    (c := Tlb.most (s.mm.accesses (s.getPT s.current) kernel)
      (Tlb.most (s.mm.accesses (Mm.getPT s.cr3) kernel) c))
  have hkept := keepsTranslations_iff_most.mp hkeeps (pagLogInitHeap, f) (by
    rw [forkOps_eq htake hdir, inheritPagesOps_eq h htake hdir hpages, if_neg (by simp),
      List.append_nil, Tlb.most_append, Tlb.most_append]
    exact hmem)
  have hwindow := htable pagLogInitHeap (Mm.window_lt (show 0 < numPagData by decide))
  rw [if_pos] at hwindow
  . obtain ⟨-, hpresent, -⟩ := Mm.translation_eq_some hkept.1
    rw [hmm, hwindow] at hpresent
    cases hpresent
  . obtain ⟨-, -, hcount⟩ := Mm.freeFrames_of_allocFrame halloc
    have hpos : 0 < numPagData := by decide
    unfold Mm.Window
    rw [hcount]
    omega

end Pages

/--
What the processor keeps of the page table of the parent is right after a fork just if the fork has not run
out of frames on its way.
-/
theorem keepsTranslations_iff (h : s.KeepsParent)
    (hc : Tlb.Agrees (s.mm.translation (s.getPT s.current)) c) (hfork : s.sysFork = some (r, s'))
    : KeepsTranslations kernel s s' c ↔ ¬s.RunsShort := by
  cases sysFork_end hfork with
  | noSlot hempty =>
    have hops : s.forkOps kernel = s.mm.accesses (Mm.getPT s.cr3) kernel := by
      unfold forkOps
      rw [if_pos hempty, List.append_nil]
    refine iff_of_true (keepsTranslations_of_same h rfl hc hops) ?_
    rintro ⟨hnot, -⟩
    rw [hempty] at hnot
    cases hnot
  | @noDIR new s₁ htake hdir =>
    have hkernel := (takeFree_eq_some htake).2
    have hops : s.forkOps kernel = s.mm.accesses (Mm.getPT s.cr3) kernel := by
      unfold forkOps
      rw [if_neg (by rw [listEmpty_of_takeFree htake]; simp), htake]
      dsimp only
      rw [hdir, List.append_nil]
    refine iff_of_true (keepsTranslations_of_same h ?_ hc hops) ?_
    . rw [← hkernel]
      rfl
    . rintro ⟨-, ⟨d, hzero⟩, -⟩
      rw [← hkernel] at hzero
      exact absurd hzero (refsDIR_ne_zero hdir d)
  | noFrame htake hdir hpages =>
    have hshort : ¬numPagData ≤ s.mm.freeFrames := by
      rw [← enough_iff h htake hdir hpages]
      simp
    by_cases hfull : s.mm.NoFreeFrame
    . refine iff_of_true (keepsTranslations_of_noFreeFrame h htake hdir hpages rfl hfull hc) ?_
      rintro ⟨-, -, hpos, -⟩
      rw [Mm.freeFrames_eq_zero_iff.mpr hfull] at hpos
      omega
    . refine iff_of_false (not_keepsTranslations h htake hdir hpages rfl hfull) ?_
      rw [not_not]
      obtain ⟨d, hzero, -⟩ := refsDIR_of_allocateDIR htake hdir hpages
      rw [← Mm.freeFrames_eq_zero_iff] at hfull
      exact ⟨listEmpty_of_takeFree htake, ⟨d, hzero⟩, by omega, by omega⟩
  | created htake hdir hpages hready =>
    have henough := (enough_iff h htake hdir hpages).mp rfl
    refine iff_of_true (keepsTranslations_of_enough h htake hdir hpages ?_) ?_
    . rw [toKernel_makeReady hready]
      rfl
    . rintro ⟨-, -, -, hlt⟩
      omega

def withOneFrame (s : Sys) : Sys :=
  s.mapKernel fun k =>
    { k with mm := { k.mm with physMem := fun f => if f = 800 then .freeFrame else .usedFrame } }

theorem withOneFrame_boot : ∀ s ∈ boot fun _ _ => 0,
    (withOneFrame s).KeepsParent ∧ (withOneFrame s).CanFork ∧ (withOneFrame s).mm.freeFrames = 1 := by
  decide +kernel

theorem keepsTranslations_iff_oneFrame
    : ∃ s s' r, boot (fun _ _ => 0) = some s ∧ (withOneFrame s).sysFork = some (r, s') ∧
        (KeepsTranslations [1] (withOneFrame s) s' ∅ ↔ ¬(withOneFrame s).RunsShort) := by
  obtain ⟨s, hs⟩ := exists_boot fun _ _ => 0
  obtain ⟨hkeeps, hcan, -⟩ := withOneFrame_boot s hs
  obtain ⟨r, s', hfork⟩ := hcan.exists_sysFork hkeeps
  exact ⟨s, s', r, hs, hfork, keepsTranslations_iff hkeeps nofun hfork⟩

theorem not_keepsTranslations_oneFrame
    : ∃ s s' r, boot (fun _ _ => 0) = some s ∧ (withOneFrame s).KeepsParent ∧
        (withOneFrame s).sysFork = some (r, s') ∧ ¬KeepsTranslations [1] (withOneFrame s) s' ∅ := by
  obtain ⟨s, hs⟩ := exists_boot fun _ _ => 0
  obtain ⟨hkeeps, hcan, hone⟩ := withOneFrame_boot s hs
  obtain ⟨r, s', hfork⟩ := hcan.exists_sysFork hkeeps
  refine ⟨s, s', r, hs, hkeeps, hfork, ?_⟩
  cases sysFork_end hfork with
  | noSlot hempty =>
    rw [hcan.listEmpty_eq_false] at hempty
    cases hempty
  | noDIR htake hdir => exact absurd hdir (hcan.allocateDIR_ne_none htake)
  | noFrame htake hdir hpages =>
    apply not_keepsTranslations hkeeps htake hdir hpages rfl
    rw [← Mm.freeFrames_eq_zero_iff, hone]
    decide
  | created htake hdir hpages =>
    have := (enough_iff hkeeps htake hdir hpages).mp rfl
    rw [hone] at this
    exact absurd this (by decide)

end Sys

end Zeos
