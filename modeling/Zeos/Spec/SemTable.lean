import Zeos.Impl.Kernel
import Zeos.Lib.Run

/-!
What the table of the semaphores is for: `sys_sem_init` finds a free entry in it, and a semaphore is there
until it is destroyed.
-/

namespace Zeos

namespace Sys

structure OccupiesOnly (i : SemIx) (s s' : Sys) : Prop where
  free : (s.semaphores i).state = .freeSem
  used : (s'.semaphores i).state = .usedSem
  kernel : s'.toKernel =
    { s.toKernel with semaphores := Function.update s.semaphores i (s'.semaphores i) }
  links : ∀ z ≠ .head (.blockedQueue i),
    s'.links.next z = s.links.next z ∧ s'.links.prev z = s.links.prev z

/-- `sys_sem_init` takes a free entry, or it fails and changes nothing. -/
def InitsInTable (nSem : Int) (value : BitVec 32) (s : Sys) : Prop :=
  ∃ r s', s.sysSemInit nSem value = some (r, s') ∧
    (r < 0 ∧ s' = s ∨ ∃ i, OccupiesOnly i s s')

end Sys

/-- How many calls of `sys_sem_wait` there have been, and which of them did not return 0 at once. -/
structure Grants where
  waits : Nat
  refused : List Nat

namespace Grants

def none : Grants :=
  { waits := 0, refused := [] }

def after (n : Int) (event : Event) (s s' : Sys) (x : Grants) : Grants :=
  match event with
  | .semWait nSem =>
    if nSem = n then
      { waits := x.waits + 1
        refused :=
          if s'.current = s.current ∧ s'.eax s.current = 0 ∧ s'.cont s.current = .user then x.refused
          else x.refused ++ [x.waits + 1] }
    else x
  | _ => x

/-- The first `v` calls have returned 0 at once. -/
def AtLeast (v : Nat) (x : Grants) : Prop :=
  ∀ k ∈ x.refused, v < k

instance (v : Nat) : DecidablePred (AtLeast v) :=
  fun x => inferInstanceAs (Decidable (∀ k ∈ x.refused, v < k))

end Grants

namespace Sys

def stepGrants (n : Int) : Input → Sys × Grants → Option (Sys × Grants) :=
  Run.ghost step fun i s s' x => x.after n i.event s s'

/-- A signal on the semaphore `n`, or a call that destroys it. -/
def Disturbs (n : Int) (i : Input) (s : Sys) : Prop :=
  i.event = .semSignal n ∨ i.event = .semDestroy n ∨
    (i.event = .exit ∧ ∃ j ∈ s.cercaSem n, (s.semaphores j).owner = (s.task s.current).pid)

instance (n : Int) (i : Input) : DecidablePred (Disturbs n i) :=
  fun s => inferInstanceAs (Decidable (i.event = .semSignal n ∨ i.event = .semDestroy n ∨
    (i.event = .exit ∧ ∃ j ∈ s.cercaSem n, (s.semaphores j).owner = (s.task s.current).pid)))

end Sys

end Zeos
