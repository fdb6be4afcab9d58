import Zeos.Lemmas.Semaphores

/-!
The end of a semaphore: those who wait for it become ready, with -1 for a result.
-/

namespace Zeos

open Model

structure Drained (i : SemIx) (m m' : Model) : Prop where
  semaphores : m'.semaphores = (m.closeSem i).semaphores
  ready : m'.seq .readyqueue = m.seq .readyqueue ++ m.seq (.blockedQueue i)
  empty : m'.seq (.blockedQueue i) = []
  shape : m'.queues.shape (.blockedQueue i) = m.queues.shape (.blockedQueue i)
  seq : ∀ q ≠ .blockedQueue i, q ≠ .readyqueue → m'.seq q = m.seq q
  semRet : ∀ t, (m'.task t).semRet =
    if t ∈ m.seq (.blockedQueue i) then -1 else (m.task t).semRet
  pid : ∀ t, (m'.task t).pid = (m.task t).pid
  cont : m'.cont = m.cont
  current : m'.current = m.current
  inKernel : m'.inKernel = m.inKernel

section Unblock

variable {m : Model} {live : Finset Slot} {run : Option Slot} {ts : List Slot} {n : Int} {i : SemIx}

theorem unblock_semRet (t : Slot)
    : ((m.unblock ts).task t).semRet = if t ∈ ts then -1 else (m.task t).semRet := by
  induction ts generalizing m with
  | nil => simp [unblock]
  | cons u us ih =>
    apply (ih (m := (m.mapKernel (Kernel.setSemRet u (-1))).updateProcessState u
      (some .readyqueue))).trans
    by_cases hus : t ∈ us
    . simp [hus]
    . by_cases htu : t = u
      . simp [htu, updateProcessState]
      . simp [hus, htu, updateProcessState]

theorem unblock_cont (m : Model) (ts : List Slot)
    : (m.unblock ts).cont = m.cont ∧ (m.unblock ts).inKernel = m.inKernel := by
  induction ts generalizing m with
  | nil => exact ⟨rfl, rfl⟩
  | cons u us ih => exact ih _

theorem unblock_shape {q : Queue} (hq : q ≠ .readyqueue)
    : (m.unblock ts).queues.shape q = m.queues.shape q := by
  induction ts generalizing m with
  | nil => rfl
  | cons u us ih =>
    apply ih.trans
    exact (Queues.shape_append ..).trans (if_neg hq)

theorem unblock_ready (hnodup : ts.Nodup) (hnot : ∀ t ∈ ts, t ∉ m.seq .readyqueue)
    : (m.unblock ts).seq .readyqueue = m.seq .readyqueue ++ ts := by
  induction ts generalizing m with
  | nil => simp [unblock]
  | cons u us ih =>
    obtain ⟨hu, hus⟩ := List.nodup_cons.mp hnodup
    have hfirst : ((m.mapKernel (Kernel.setSemRet u (-1))).updateProcessState u
        (some .readyqueue)).seq .readyqueue = m.seq .readyqueue ++ [u] := by
      show (m.seq .readyqueue).erase u ++ [u] = _
      rw [List.erase_of_not_mem (hnot u (by simp))]
    apply (ih hus ?_).trans
    . rw [hfirst]
      simp
    . intro t ht
      rw [hfirst, List.mem_append, List.mem_singleton, not_or]
      exact ⟨hnot t (by simp [ht]), fun heq => hu (heq ▸ ht)⟩

theorem drained_semDestroy (h : Placed m live run) (hi : m.cercaSem n = some i)
    (howner : (m.semaphores i).owner = (m.task m.current).pid)
    : (m.semDestroy n).1 = 0 ∧ Drained i m (m.semDestroy n).2 := by
  obtain ⟨-, hempty, hrest⟩ := h.unblock (q := .blockedQueue i) (by simp) (by simp) rfl
  obtain ⟨hcont, hkernel⟩ := unblock_cont m (m.seq (.blockedQueue i))
  rw [semDestroy_of_owner hi howner]
  refine ⟨rfl, ?_⟩
  constructor
  . funext j
    show ((m.unblock _).toKernel.closeSem i).semaphores j = _
    rw [Kernel.closeSem_semaphores, Kernel.closeSem_semaphores, hrest.semaphores]
  . apply unblock_ready (h.nodup _)
    intro t ht hready
    cases h.disjoint _ _ t ht hready
  . exact hempty
  . exact unblock_shape (by simp)
  . exact hrest.seq
  . exact unblock_semRet
  . exact hrest.pid
  . exact hcont
  . exact hrest.current
  . exact hkernel

theorem semDestroy_of_not_mine
    (hnot : ∀ i, m.cercaSem n = some i → (m.semaphores i).owner ≠ (m.task m.current).pid)
    : (m.semDestroy n).1 < 0 ∧ (m.semDestroy n).2 = m := by
  cases hi : m.cercaSem n with
  | none =>
    rw [semDestroy_of_none hi]
    exact ⟨show (-eINVAL : Int) < 0 by decide, rfl⟩
  | some i =>
    rw [semDestroy_of_not_owner hi (hnot i hi)]
    exact ⟨show (-ePERM : Int) < 0 by decide, rfl⟩

end Unblock

end Zeos
