import Zeos.Lemmas.SemTable

/-!
What the scheduler and the semaphores leave alone: the memory, and the keys that have been delivered.
-/

namespace Zeos

structure Undisturbed (k k' : Kernel) : Prop where
  copies : k'.copies = k.copies
  faultsStop : k'.faultsStop = k.faultsStop
  mm : k'.mm = k.mm

namespace Undisturbed

variable {k k' k'' : Kernel} {t : Slot}

theorem refl (k : Kernel) : Undisturbed k k :=
  ⟨rfl, rfl, rfl⟩

theorem trans (h : Undisturbed k k') (h' : Undisturbed k' k'') : Undisturbed k k'' where
  copies := h'.copies.trans h.copies
  faultsStop := h'.faultsStop.trans h.faultsStop
  mm := h'.mm.trans h.mm

theorem entered {i : Input} (h : k.entry i = some k') : Undisturbed k k' := by
  have hentered := Kernel.entered_of_entry h
  exact ⟨hentered.copies, hentered.faultsStop, hentered.mm⟩

section Routines

variable {s s' : Sys} {r : Int}

theorem updateProcessStateRr {dst : Option Queue} (h : Sys.updateProcessStateRr t dst s = some s')
    : Undisturbed s.toKernel s'.toKernel := by
  obtain ⟨estado, hkernel⟩ := Sys.toKernel_updateProcessStateRr h
  rw [hkernel]
  exact ⟨rfl, rfl, rfl⟩

theorem schedNextRr (h : s.schedNextRr = some s') : Undisturbed s.toKernel s'.toKernel := by
  unfold Sys.schedNextRr at h
  split at h
  next =>
    obtain ⟨t, -, h⟩ := Option.bind_eq_some_iff.mp h
    obtain ⟨s₁, hs₁, h⟩ := Option.bind_eq_some_iff.mp h
    cases h
    have hdata : Undisturbed s.toKernel (s.schedData t) := ⟨rfl, rfl, rfl⟩
    exact { hdata.trans (updateProcessStateRr hs₁) with }
  next =>
    cases h
    exact ⟨rfl, rfl, rfl⟩

theorem exitRunCurrent {q : Queue} (h : s.exitRunCurrent q = some s')
    : Undisturbed s.toKernel s'.toKernel := by
  have hstats : Undisturbed s.toKernel s.exitRunData := ⟨rfl, rfl, rfl⟩
  exact hstats.trans (updateProcessStateRr h)

theorem schedule (h : s.schedule = some s') : Undisturbed s.toKernel s'.toKernel := by
  have hneeds : ∀ s : Sys, Undisturbed s.toKernel s.needsSchedRr.2.toKernel := by
    intro s
    unfold Sys.needsSchedRr
    dsimp only
    split
    next => exact refl _
    next =>
      split
      next =>
        exact ⟨rfl, rfl, rfl⟩
      next => exact refl _
  have hsched := hneeds (s.mapKernel Kernel.updateSchedDataRr)
  unfold Sys.schedule at h
  dsimp only at h
  generalize (s.mapKernel Kernel.updateSchedDataRr).needsSchedRr = x at h hsched
  have htick : Undisturbed s.toKernel x.2.toKernel := { hsched with }
  split at h
  next =>
    obtain ⟨s₁, hs₁, h⟩ := Option.bind_eq_some_iff.mp h
    exact (htick.trans (exitRunCurrent hs₁)).trans (schedNextRr h)
  next =>
    cases h
    exact htick

theorem unblockAll {i : SemIx} {fuel : Nat} (h : s.unblockAll i fuel = some s')
    : Undisturbed s.toKernel s'.toKernel := by
  induction fuel generalizing s with
  | zero => cases h
  | succ fuel ih =>
    unfold Sys.unblockAll at h
    split at h
    next =>
      cases h
      exact refl _
    next =>
      obtain ⟨t, -, h⟩ := Option.bind_eq_some_iff.mp h
      obtain ⟨s₁, hs₁, h⟩ := Option.bind_eq_some_iff.mp h
      have hret : Undisturbed s.toKernel (s.setSemRet t (-1)) := ⟨rfl, rfl, rfl⟩
      exact (hret.trans (updateProcessStateRr hs₁)).trans (ih h)

theorem sysSemDestroy {nSem : Int} (h : s.sysSemDestroy nSem = some (r, s'))
    : Undisturbed s.toKernel s'.toKernel := by
  unfold Sys.sysSemDestroy at h
  split at h
  next =>
    cases h
    exact refl _
  next i _ =>
    split at h
    next =>
      cases h
      exact refl _
    next =>
      split at h
      next =>
        cases h
        exact refl _
      next =>
        obtain ⟨s₁, hs₁, h⟩ := Option.bind_eq_some_iff.mp h
        cases h
        exact { unblockAll hs₁ with }

theorem sysSemSignal {nSem : Int} (h : s.sysSemSignal nSem = some (r, s'))
    : Undisturbed s.toKernel s'.toKernel := by
  unfold Sys.sysSemSignal at h
  split at h
  next =>
    cases h
    exact refl _
  next i _ =>
    split at h
    next =>
      cases h
      exact refl _
    next =>
      split at h
      next =>
        cases h
        exact ⟨rfl, rfl, rfl⟩
      next =>
        obtain ⟨t, -, h⟩ := Option.bind_eq_some_iff.mp h
        obtain ⟨s₁, hs₁, h⟩ := Option.bind_eq_some_iff.mp h
        cases h
        exact updateProcessStateRr hs₁

theorem sysSemInit {nSem : Int} {value : BitVec 32} (h : s.sysSemInit nSem value = some (r, s'))
    : Undisturbed s.toKernel s'.toKernel := by
  unfold Sys.sysSemInit at h
  split at h
  next =>
    cases h
    exact refl _
  next =>
    obtain ⟨i, -, h⟩ := Option.bind_eq_some_iff.mp h
    obtain ⟨s₁, hs₁, h⟩ := Option.bind_eq_some_iff.mp h
    cases h
    rw [Sys.toKernel_mapLinks hs₁]
    exact ⟨rfl, rfl, rfl⟩

theorem sysSemWait {nSem : Int} (h : s.sysSemWait nSem = some s')
    : Undisturbed s.toKernel s'.toKernel := by
  unfold Sys.sysSemWait at h
  split at h
  next =>
    cases h
    exact ⟨rfl, rfl, rfl⟩
  next i _ =>
    split at h
    next =>
      cases h
      exact ⟨rfl, rfl, rfl⟩
    next =>
      have hret : Undisturbed s.toKernel (s.setSemRet s.current 0) := ⟨rfl, rfl, rfl⟩
      dsimp only at h
      split at h
      next =>
        obtain ⟨s₁, hs₁, h⟩ := Option.bind_eq_some_iff.mp h
        have hblocked := hret.trans (exitRunCurrent hs₁)
        have hwaits : Undisturbed s₁.toKernel (s₁.setCont s₁.current .semWait) := ⟨rfl, rfl, rfl⟩
        exact (hblocked.trans hwaits).trans (schedNextRr h)
      next =>
        cases h
        exact ⟨rfl, rfl, rfl⟩

theorem destroyOwned (h : s.destroyOwned = some s') : Undisturbed s.toKernel s'.toKernel := by
  unfold Sys.destroyOwned at h
  generalize List.finRange nrSemaphores = is at h
  induction is generalizing s with
  | nil =>
    cases h
    exact refl _
  | cons i is ih =>
    obtain ⟨s₁, hs₁, h⟩ := Option.bind_eq_some_iff.mp h
    refine trans ?_ (ih h)
    dsimp only at hs₁
    split at hs₁
    next =>
      obtain ⟨⟨r, s₂⟩, hs₂, rfl⟩ := Option.map_eq_some_iff.mp hs₁
      exact sysSemDestroy hs₂
    next =>
      cases hs₁
      exact refl _

theorem sysExit (h : s.sysExit = some s') : Undisturbed s.releaseDIR s'.toKernel := by
  obtain ⟨s₁, hs₁, h⟩ := Option.bind_eq_some_iff.mp h
  obtain ⟨s₂, hs₂, h⟩ := Option.bind_eq_some_iff.mp h
  obtain ⟨s₃, hs₃, h⟩ := Option.bind_eq_some_iff.mp h
  have hrelease : s₁.toKernel = s.releaseDIR := Sys.toKernel_mapLinks hs₁
  have hdestroyed := destroyOwned hs₂
  rw [hrelease] at hdestroyed
  have hpid : Undisturbed s₂.toKernel s₂.clearPid := ⟨rfl, rfl, rfl⟩
  have huser : Undisturbed s₃.toKernel (s₃.setCont s₃.current .user) := ⟨rfl, rfl, rfl⟩
  exact (((hdestroyed.trans hpid).trans (updateProcessStateRr hs₃)).trans huser).trans (schedNextRr h)

theorem keyboardRutine {entrada beyond : Byte} (h : s.keyboardRutine entrada beyond = some s')
    : Undisturbed s.toKernel s'.toKernel := by
  have hpressed : Undisturbed s.toKernel (s.keyPressed entrada beyond) := ⟨rfl, rfl, rfl⟩
  unfold Sys.keyboardRutine at h
  dsimp only at h
  split at h
  next =>
    split at h
    next =>
      obtain ⟨t, -, h⟩ := Option.bind_eq_some_iff.mp h
      split at h
      next => exact hpressed.trans (updateProcessStateRr h)
      next =>
        cases h
        exact hpressed
    next =>
      cases h
      exact hpressed
  next =>
    cases h
    exact refl _

end Routines

end Undisturbed

end Zeos
