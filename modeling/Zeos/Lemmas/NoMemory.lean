import Zeos.Spec.NoMemory
import Zeos.Lemmas.Sbrk
import Zeos.Lemmas.Calls
import Zeos.Lemmas.Idle

/-!
`sys_sbrk` gives back the wrong pages when it runs out of frames, and `sys_fork` neither its PCB nor its
directory.
-/

namespace Zeos

namespace Mm

variable {mm mm' : Mm}

theorem noFreeFrame_iff : mm.NoFreeFrame ↔ mm.allocFrame.1 = none := by
  constructor
  . intro h
    cases halloc : mm.allocFrame with
    | mk f mm' =>
      cases f with
      | none => rfl
      | some f =>
        obtain ⟨hfree, hle, hlt, hmod, -⟩ := allocFrame_eq_some halloc
        rw [h f hle hlt hmod] at hfree
        cases hfree
  . intro h
    apply allocFrame_eq_none
    exact Prod.ext h rfl

theorem NoFreeFrame.allocFrame (h : mm.NoFreeFrame) : mm.allocFrame = (none, mm) := by
  have hnone := noFreeFrame_iff.mp h
  unfold Mm.allocFrame at hnone ⊢
  split at hnone
  next => cases hnone
  next => rfl

end Mm

namespace Kernel

section Revert

variable {tp fuel n i : Nat} {last j iPage aux : Int} {mm mm' : Mm}

theorem sbrkRevert_eq (hlast : j ≤ last) : sbrkRevert tp last j fuel mm = mm := by
  cases fuel with
  | zero => rfl
  | succ fuel =>
    unfold sbrkRevert
    rw [if_neg (by omega)]

theorem sbrkRevert_zero {x : Nat} (h : mm.pagusrTable x = .zero)
    : (sbrkRevert tp last j fuel mm).pagusrTable x = .zero := by
  induction fuel generalizing j mm with
  | zero => exact h
  | succ fuel ih =>
    unfold sbrkRevert
    split
    next =>
      apply ih
      rw [Mm.pagusrTable_delSsPag]
      split
      next => rfl
      next => rw [Mm.pagusrTable_freeFrame, h]
    next => exact h

theorem sbrkRevert_first (hlast : last < i)
    : (sbrkRevert tp last i (fuel + 1) mm).pagusrTable (tp + i) = .zero := by
  unfold sbrkRevert
  rw [if_pos (by omega)]
  apply sbrkRevert_zero
  rw [Int.toNat_natCast, Mm.pagusrTable_delSsPag, if_pos rfl]

theorem sbrkGrow_of_noFreeFrame {p : Nat} (hmm : mm.NoFreeFrame) (hi : i ≤ p) (hp : p < i + n)
    (hlast : (p : Int) ≤ iPage + aux) (hpresent : (mm.pagusrTable (tp + p)).present)
    : sbrkGrow tp iPage aux n i mm = (false, mm) := by
  induction n generalizing i with
  | zero => omega
  | succ n ih =>
    unfold sbrkGrow
    rw [hmm.allocFrame]
    split
    next =>
      show (false, sbrkRevert tp (iPage + aux) i (i + 1) mm) = _
      rw [sbrkRevert_eq (by omega)]
    next hnot =>
      apply ih _ (by omega)
      by_contra hlt
      have heq : i = p := by omega
      rw [heq] at hnot
      exact hnot hpresent

/--
The loop fails at a page that was present. Either it unmaps that page, or it leaves the frames that it has
taken.
-/
theorem sbrkGrow_fails (h : sbrkGrow tp iPage aux n i mm = (false, mm'))
    : ∃ p, i ≤ p ∧ p < i + n ∧ (mm.pagusrTable (tp + p)).present ∧
        (iPage + aux < p → mm'.pagusrTable (tp + p) = .zero) ∧
        (p ≤ iPage + aux → ∀ f, mm.physMem f = .usedFrame ∨ mm.allocFrame.1 = some f →
          mm'.physMem f = .usedFrame) := by
  induction n generalizing i mm with
  | zero => cases h
  | succ n ih =>
    unfold sbrkGrow at h
    split at h
    next hpresent =>
      split at h
      next f mm₁ halloc =>
        obtain ⟨-, -, -, -, rfl⟩ := Mm.allocFrame_eq_some halloc
        obtain ⟨p, hle, hlt, hmapped, hdel, hkept⟩ := ih h
        have hne : tp + p ≠ tp + i := by omega
        rw [Mm.pagusrTable_setSsPag, if_neg hne] at hmapped
        refine ⟨p, by omega, by omega, hmapped, hdel, ?_⟩
        intro hlast g hg
        apply hkept hlast
        left
        show (mm.setPhysMem f .usedFrame).physMem g = .usedFrame
        rw [Mm.physMem_setPhysMem]
        split
        next => rfl
        next hgf =>
          rcases hg with hused | hsome
          . exact hused
          . rw [halloc] at hsome
            cases hsome
            exact absurd rfl hgf
      next mm₁ halloc =>
        have hfull : mm.NoFreeFrame := Mm.noFreeFrame_iff.mpr (congrArg Prod.fst halloc)
        rw [hfull.allocFrame] at halloc
        cases halloc
        cases h
        refine ⟨i, le_rfl, by omega, hpresent, ?_, ?_⟩
        . intro hlast
          exact sbrkRevert_first hlast
        . intro hlast f hf
          rw [sbrkRevert_eq hlast]
          rcases hf with hused | hsome
          . exact hused
          . rw [hfull.allocFrame] at hsome
            cases hsome
    next hnot =>
      obtain ⟨p, hle, hlt, hmapped, hdel, hkept⟩ := ih h
      exact ⟨p, by omega, by omega, hmapped, hdel, hkept⟩

end Revert

section Call

variable {k : Kernel} {incr : Int}

theorem sysSbrk_of_large (hlarge : totalPages < k.breakAfter incr / pageSize)
    : k.sysSbrk incr = (-eNOMEM, k) := by
  unfold sysSbrk
  exact if_pos hlarge

theorem sysSbrk_fails (hfails : (k.sysSbrk incr).1 < 0)
    : totalPages < k.breakAfter incr / pageSize ∨
        ∃ mm, sbrkGrow (k.getPT k.current) (k.currentBreak / pageSize : Nat)
            (extraPage (k.breakAfter incr))
            (k.breakAfter incr / pageSize + extraPage (k.breakAfter incr) -
              k.currentBreak / pageSize)
            (k.currentBreak / pageSize) k.mm = (false, mm) ∧
          (k.sysSbrk incr).2 = { k with mm := mm } := by
  have hbreak : (k.task k.current).processBreak = k.currentBreak := rfl
  have hstart : heapStart ≤ k.breakAfter incr := heapStart_le_addUnsigned k.currentBreak incr
  have hpage : pagLogInitHeap ≤ k.breakAfter incr / pageSize :=
    (Nat.le_div_iff_mul_le (by decide)).mpr hstart
  rw [or_iff_not_imp_left]
  intro hsmall
  unfold sysSbrk at hfails ⊢
  simp only [hbreak] at hfails ⊢
  unfold breakAfter at hsmall hpage ⊢
  rw [if_neg hsmall] at hfails ⊢
  split at hfails
  next hpos =>
    rw [if_pos hpos]
    split at hfails
    next =>
      dsimp only at hfails
      omega
    next mm hgrow =>
      exact ⟨mm, hgrow, rfl⟩
  next =>
    split at hfails
    next =>
      rw [if_pos] at hfails
      . dsimp only at hfails
        omega
      . apply sbrkShrink_fst
        omega
    next =>
      dsimp only at hfails
      omega

/--
A failed call leaves everything as it was just if it has failed before it did anything.
-/
theorem undone_iff (hfails : (k.sysSbrk incr).1 < 0)
    : Undone k (k.sysSbrk incr).2 ↔ k.FailsAtOnce incr := by
  unfold FailsAtOnce
  by_cases hlarge : totalPages < k.breakAfter incr / pageSize
  . rw [sysSbrk_of_large hlarge]
    constructor
    . intro _
      exact .inl hlarge
    . intro _
      exact ⟨rfl, rfl, rfl⟩
  . obtain ⟨mm, hgrow, heq⟩ := (sysSbrk_fails hfails).resolve_left hlarge
    obtain ⟨p, hle, hlt, hpresent, hdel, hkept⟩ := sbrkGrow_fails hgrow
    rw [heq, or_iff_right hlarge]
    unfold BreakPagePresent
    generalize k.currentBreak / pageSize = iPage at *
    constructor
    . intro hundone
      have hlast : (p : Int) ≤ iPage + extraPage (k.breakAfter incr) := by
        by_contra hnot
        have hzero := hdel (not_le.mp hnot)
        rw [show mm.pagusrTable = k.mm.pagusrTable from hundone.pagusrTable] at hzero
        rw [hzero] at hpresent
        cases hpresent
      constructor
      . rw [Mm.noFreeFrame_iff]
        cases halloc : k.mm.allocFrame with
        | mk f mm' =>
          cases f with
          | none => rfl
          | some f =>
            have hused := hkept hlast f (.inr (by rw [halloc]))
            rw [show mm.physMem = k.mm.physMem from hundone.physMem] at hused
            rw [(Mm.allocFrame_eq_some halloc).1] at hused
            cases hused
      . exact ⟨p, hle, by omega, hpresent⟩
    . rintro ⟨hfull, q, hqle, hqlast, hq⟩
      have hsame : mm = k.mm := by
        -- The page of the break is in the range of the loop, since some page is.
        by_cases hend : q < p
        . have hsame := hgrow.symm.trans
            (sbrkGrow_of_noFreeFrame hfull hqle (by omega) (by omega) hq)
          exact congrArg Prod.snd hsame
        . have hsame := hgrow.symm.trans
            (sbrkGrow_of_noFreeFrame hfull hle (by omega) (by omega) hpresent)
          exact congrArg Prod.snd hsame
      rw [hsame]
      exact ⟨rfl, rfl, rfl⟩

end Call

def withLastFrame (k : Kernel) : Kernel :=
  let mm := (k.mm.setSsPag (k.getPT k.current) pagLogInitHeap 800).setSsPag (k.getPT k.current)
    (pagLogInitHeap + 1) 802
  let physMem := fun f => if f = 1022 then Frame.freeFrame else .usedFrame
  ({ k with mm := { mm with physMem := physMem } } : Kernel).setTask k.current fun ts =>
    { ts with processBreak := heapStart + 10 }

theorem withLastFrame_boot : ∀ s ∈ boot fun _ _ => 0,
    ((withLastFrame s.toKernel).sysSbrk 8192).1 < 0 ∧
      ((withLastFrame s.toKernel).sysSbrk 8192).2.mm.physMem 1022 = .usedFrame := by
  decide +kernel

theorem undone_iff_lastFrame
    : ∃ s, boot (fun _ _ => 0) = some s ∧
        (Undone (withLastFrame s.toKernel) ((withLastFrame s.toKernel).sysSbrk 8192).2 ↔
          (withLastFrame s.toKernel).FailsAtOnce 8192) := by
  obtain ⟨s, hs⟩ := exists_boot fun _ _ => 0
  exact ⟨s, hs, undone_iff (withLastFrame_boot s hs).1⟩

theorem not_undone_lastFrame
    : ∃ s, boot (fun _ _ => 0) = some s ∧ ((withLastFrame s.toKernel).sysSbrk 8192).1 < 0 ∧
        ¬Undone (withLastFrame s.toKernel) ((withLastFrame s.toKernel).sysSbrk 8192).2 := by
  obtain ⟨s, hs⟩ := exists_boot fun _ _ => 0
  obtain ⟨hfails, hused⟩ := withLastFrame_boot s hs
  refine ⟨s, hs, hfails, ?_⟩
  intro hundone
  rw [hundone.physMem] at hused
  have hfree : (withLastFrame s.toKernel).mm.physMem 1022 = .freeFrame := rfl
  rw [hfree] at hused
  cases hused

end Kernel

namespace Sys

section Fork

variable {s s' : Sys} {r : Int} {new : Slot} {s₁ : Sys}

theorem refsDIR_ne_zero {k : Kernel} (h : k.allocateDIR new = none) (d : DirIx) : k.refsDIR d ≠ 0 := by
  have hnone := Option.map_eq_none_iff.mp h
  rw [List.find?_eq_none] at hnone
  simpa using hnone d (List.mem_finRange d)

theorem task_copyTask (htake : s.takeFree = some (new, s₁)) (t : Slot)
    : (s₁.copyTask new).task t = if t = new then s.task s.current else s.task t := by
  have hkernel := (takeFree_eq_some htake).2
  have htask : (s₁.copyTask new).task t = if t = new then s₁.task s₁.current else s₁.task t := rfl
  rw [htask, hkernel]

theorem forkUndone_copyTask_iff (htake : s.takeFree = some (new, s₁))
    (hdir : (s₁.copyTask new).allocateDIR new = none)
    : ForkUndone s (s₁.copyTask new) ↔ s.TakesNothing := by
  have hkernel := (takeFree_eq_some htake).2
  constructor
  . intro h
    constructor
    . intro d
      rw [← h.refsDIR]
      exact refsDIR_ne_zero hdir d
    . refine ⟨new, s₁, htake, h.freequeue, h.readyqueue, ?_, ?_, ?_⟩
      . have hpid := h.pid new
        rwa [task_copyTask htake, if_pos rfl] at hpid
      . have hnew := h.dir new
        unfold Kernel.getDIR at hnew
        rwa [task_copyTask htake, if_pos rfl] at hnew
      . have hnew := h.position new
        unfold Kernel.getDIRPosition at hnew
        rwa [task_copyTask htake, if_pos rfl] at hnew
  . rintro ⟨-, new', s₁', htake', hfree, hready, hpid, hnew, hposition⟩
    rw [htake] at htake'
    cases htake'
    constructor
    . exact hfree
    . exact hready
    . rw [← hkernel]
      rfl
    . rw [← hkernel]
      rfl
    . rw [← hkernel]
      rfl
    . intro t
      rw [task_copyTask htake]
      split
      next heq => rw [heq, hpid]
      next => rfl
    . intro t
      unfold Kernel.getDIR at hnew ⊢
      rw [task_copyTask htake]
      split
      next heq => rw [heq, hnew]
      next => rfl
    . intro t
      unfold Kernel.getDIRPosition at hposition ⊢
      rw [task_copyTask htake]
      split
      next heq => rw [heq, hposition]
      next => rfl
    . intro t _ page _
      rw [← hkernel]
      rfl

theorem refsDIR_of_allocateDIR (htake : s.takeFree = some (new, s₁)) {k k' : Kernel} {enough : Bool}
    (hdir : (s₁.copyTask new).allocateDIR new = some k) (hpages : k.inheritPages new = some (enough, k'))
    : ∃ d, s.refsDIR d = 0 ∧ k'.refsDIR d = 1 := by
  obtain ⟨d, hzero, rfl⟩ := Kernel.allocateDIR_eq_some hdir
  obtain ⟨mm, rfl⟩ := Kernel.inheritPages_eq_some hpages
  refine ⟨d, ?_, ?_⟩
  . rw [← hzero, ← (takeFree_eq_some htake).2]
    rfl
  . exact if_pos rfl

/--
A `sys_fork` that fails leaves all as it was just if it finds no PCB.
-/
theorem forkUndone_iff (h : s.sysFork = some (r, s')) (hfails : r < 0)
    : ForkUndone s s' ↔ listEmpty (.head .freequeue) s.links = true ∨ s.TakesNothing := by
  have htaken : ∀ {d}, s.refsDIR d = 0 → s'.refsDIR d = 1 →
      (ForkUndone s s' ↔ s.TakesNothing) := by
    intro d hzero hone
    constructor
    . intro hundone
      rw [hundone.refsDIR, hzero] at hone
      cases hone
    . intro hnothing
      exact absurd hzero (hnothing.1 d)
  cases sysFork_end h with
  | noSlot hempty =>
    constructor
    . intro _
      exact .inl hempty
    . intro _
      exact ⟨rfl, rfl, rfl, rfl, rfl, fun _ => rfl, fun _ => rfl, fun _ => rfl, fun _ _ _ _ => rfl⟩
  | noDIR htake hdir =>
    rw [listEmpty_of_takeFree htake, forkUndone_copyTask_iff htake hdir]
    simp
  | noFrame htake hdir hpages =>
    obtain ⟨d, hzero, hone⟩ := refsDIR_of_allocateDIR htake hdir hpages
    rw [listEmpty_of_takeFree htake, htaken hzero hone]
    simp
  | created htake hdir hpages hready =>
    obtain ⟨d, hzero, hone⟩ := refsDIR_of_allocateDIR htake hdir hpages
    rw [listEmpty_of_takeFree htake, htaken hzero]
    . simp
    . rw [toKernel_makeReady hready]
      exact hone

theorem not_takesNothing {m : Model} {live : Finset Slot} (hr : Refines s m) (h : Settled m live)
    (hring : m.queues.shape .freequeue = .ring) : ¬s.TakesNothing := by
  rintro ⟨-, new, s₁, htake, hfree, -⟩
  have hfirst := (takeFree_eq_some htake).1
  rw [hr.firstTask_eq (by simp [hring])] at hfirst
  obtain ⟨ts, hcons⟩ := List.head?_eq_some_iff.mp hfirst
  have htaken := hr.takeFree hcons (.inl hring)
  rw [htake] at htaken
  cases htaken with
  | some hr₁ =>
    have hcopied := hr₁.2.copyTask (h.takeCopy (t := new) (by rw [hcons]; simp)).not_linked
    rw [hcopied.members_eq (by simpa using hring), hr.members_eq hring] at hfree
    have hmem : new ∈ m.seq .freequeue := by simp [hcons]
    rw [← hfree] at hmem
    exact ((h.placed.nodup .freequeue).mem_erase_iff.mp hmem).1 rfl

end Fork

def withoutFrames (s : Sys) : Sys :=
  s.mapKernel fun k => { k with mm := { k.mm with physMem := fun _ => .usedFrame } }

theorem withoutFrames_boot : ∀ s ∈ boot fun _ _ => 0, ∃ x ∈ (withoutFrames s).sysFork,
    x.1 < 0 ∧ x.2.members .freequeue ≠ (withoutFrames s).members .freequeue := by
  decide +kernel

theorem forkUndone_iff_withoutFrames
    : ∃ s s' r, boot (fun _ _ => 0) = some s ∧ (withoutFrames s).sysFork = some (r, s') ∧
        (ForkUndone (withoutFrames s) s' ↔
          listEmpty (.head .freequeue) (withoutFrames s).links = true ∨
            (withoutFrames s).TakesNothing) := by
  obtain ⟨s, hs⟩ := exists_boot fun _ _ => 0
  obtain ⟨⟨r, s'⟩, hfork, hfails, -⟩ := withoutFrames_boot s hs
  exact ⟨s, s', r, hs, hfork, forkUndone_iff hfork hfails⟩

theorem not_forkUndone_withoutFrames
    : ∃ s s' r, boot (fun _ _ => 0) = some s ∧ (withoutFrames s).sysFork = some (r, s') ∧ r < 0 ∧
        ¬ForkUndone (withoutFrames s) s' := by
  obtain ⟨s, hs⟩ := exists_boot fun _ _ => 0
  obtain ⟨⟨r, s'⟩, hfork, hfails, hlost⟩ := withoutFrames_boot s hs
  refine ⟨s, s', r, hs, hfork, hfails, ?_⟩
  intro hundone
  exact hlost hundone.freequeue

end Sys

end Zeos
