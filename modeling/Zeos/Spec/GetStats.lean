import Zeos.Spec.Live

/-!
What `sys_get_stats` answers.
-/

namespace Zeos

def UserArea (a : Addr) : Prop :=
  pagLogInitCode ≤ a.toNat / pageSize ∧ a.toNat / pageSize < pagLogInitHeap

def Kernel.currentSpace (k : Kernel) : Space :=
  { mm := k.mm, pt := Mm.getPT k.cr3 }

/-- A process has asked for the statistics of the task `t`, which are at `st` now. -/
structure StatsCopied (k k' : Kernel) (t : Slot) (st : Addr) : Prop where
  rest : k' = { k with mm := k'.mm }
  counters : ∀ i < 24, ByteMem.load k'.currentSpace (st + BitVec.ofNat 32 i) =
    (Kernel.statsBytes (k.task t).estadisticas)[i]?
  remaining : ∀ i < 4, ByteMem.load k'.currentSpace (st + BitVec.ofNat 32 (24 + i)) =
    (Kernel.wordBytes (BitVec.ofInt 32 k.qLeft))[i]?
  others : ∀ a, UserArea a → (∀ i < 28, a ≠ st + BitVec.ofNat 32 i) →
    ByteMem.load k'.currentSpace a = ByteMem.load k.currentSpace a

def Kernel.called (readings : Readings) (k : Kernel) : Kernel :=
  ({ k with readings := readings } : Kernel).enter

/--
What `sys_get_stats` answers the current process: for the PID of a live process its statistics, and for
any other one an error.
-/
structure Answers (x : Sys × Finset Slot × Finset Int) (readings : Readings) (pid : Int) (st : Addr)
    : Prop where
  live : pid ∈ x.2.2 → ∃ t ∈ x.2.1, (x.1.task t).pid = pid ∧ (∀ u, (x.1.task u).pid = pid → u = t) ∧
    ∃ k, (x.1.called readings).sysGetStats pid st = some (0, k) ∧
      StatsCopied (x.1.called readings) k t st
  dead : pid ∉ x.2.2 →
    (x.1.called readings).sysGetStats pid st = some (-eSRCH, x.1.called readings)

end Zeos
