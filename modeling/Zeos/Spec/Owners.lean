import Zeos.Spec.Accounts

/-!
A semaphore belongs to the process that has created it, and ends with it.
-/

namespace Zeos

namespace Kernel

def DistinctIds (k : Kernel) : Prop :=
  ∀ i j, (k.semaphores i).state = .usedSem → (k.semaphores j).state = .usedSem →
    (k.semaphores i).nSem = (k.semaphores j).nSem → i = j

instance : DecidablePred DistinctIds :=
  fun k => inferInstanceAs (Decidable (∀ i j, (k.semaphores i).state = .usedSem →
    (k.semaphores j).state = .usedSem → (k.semaphores i).nSem = (k.semaphores j).nSem → i = j))

def Owns (pid : Int) (i : SemIx) (k : Kernel) : Prop :=
  (k.semaphores i).state = .usedSem ∧ (k.semaphores i).owner = pid

instance (pid : Int) (i : SemIx) : DecidablePred (Owns pid i) :=
  fun k => inferInstanceAs
    (Decidable ((k.semaphores i).state = .usedSem ∧ (k.semaphores i).owner = pid))

def currentPid (k : Kernel) : Int :=
  (k.task k.current).pid

end Kernel

namespace Sys

end Sys

end Zeos
