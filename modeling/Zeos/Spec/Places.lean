import Zeos.Spec.Live
import Zeos.Spec.RoundRobin

/-!
Where each live process is.
-/

namespace Zeos

namespace Sys

/-- All lists are in use, except those of the free semaphores. -/
def InUse (s : Sys) (q : Queue) : Prop :=
  ∀ i, q = .blockedQueue i → (s.semaphores i).state = .usedSem

def OnNone (s : Sys) (t : Slot) : Prop :=
  ∀ q, s.InUse q → ∃ ts, s.Lists q ts ∧ t ∉ ts

def OnOnly (s : Sys) (q : Queue) (t : Slot) : Prop :=
  (s.InUse q ∧ ∃ ts, s.Lists q ts ∧ ts.count t = 1) ∧
    ∀ q' ≠ q, s.InUse q' → ∃ ts, s.Lists q' ts ∧ t ∉ ts

inductive InPlace (s : Sys) (t : Slot) : Prop
  | running (hcurrent : t = s.current) (hest : (s.task t).estado = .stRun) (hnone : s.OnNone t)
  | ready (hest : (s.task t).estado = .stReady) (honly : s.OnOnly .readyqueue t)
  | blocked (q : Queue) (hq : q = .keyboardqueue ∨ ∃ i, q = .blockedQueue i)
    (hest : (s.task t).estado = .stBlocked) (honly : s.OnOnly q t)
  | parked (hidle : t = s.idleTask) (hest : (s.task t).estado = .stRun) (hnone : s.OnNone t)

end Sys

/--
Every live process is in its place, one of them has the CPU, and nothing but a live process waits for
anything.
-/
structure InPlaces (x : Sys × Finset Slot) : Prop where
  current : x.1.current ∈ x.2
  place : ∀ t ∈ x.2, x.1.InPlace t
  only : ∀ q ≠ .freequeue, x.1.InUse q → ∃ ts, x.1.Lists q ts ∧ ∀ t ∈ ts, t ∈ x.2

end Zeos
