import Mathlib.Data.Finset.Basic
import Zeos.Impl.Kernel
import Zeos.Lib.Run

/-!
Which PCBs are those of live processes, as a record kept along a run.
-/

namespace Zeos

/--
A call that hands out a PID makes the first free PCB a process, and `sys_exit` ends the current one.
-/
def liveAfter (event : Event) (k k' : Kernel) (free : Option Slot) (live : Finset Slot)
    : Finset Slot :=
  match event with
  | .fork | .clone _ _ =>
    if k'.incrementalPID = k.incrementalPID then live else free.elim live fun t => insert t live
  | .exit => live.erase k.current
  | _ => live

def createdBy (event : Event) (k k' : Kernel) (free : Option Slot) : Option Slot :=
  match event with
  | .fork | .clone _ _ => if k'.incrementalPID = k.incrementalPID then none else free
  | _ => none

theorem liveAfter_eq (event : Event) (k k' : Kernel) (free : Option Slot) (live : Finset Slot)
    : liveAfter event k k' free live =
        if event = .exit then live.erase k.current
        else (createdBy event k k' free).elim live fun t => insert t live := by
  cases event with
  | fork =>
    rw [if_neg (by simp)]
    unfold liveAfter createdBy
    dsimp only
    split <;> rfl
  | clone function stack =>
    rw [if_neg (by simp)]
    unfold liveAfter createdBy
    dsimp only
    split <;> rfl
  | exit => rfl
  | _ => rw [if_neg (by simp)]; rfl

theorem createdBy_eq_some {event : Event} {k k' : Kernel} {free : Option Slot} {t : Slot}
    (h : createdBy event k k' free = some t)
    : k'.incrementalPID ≠ k.incrementalPID ∧ free = some t := by
  unfold createdBy at h
  split at h
  next =>
    split at h
    next => cases h
    next hpid => exact ⟨hpid, h⟩
  next =>
    split at h
    next => cases h
    next hpid => exact ⟨hpid, h⟩
  next => cases h

def liveBoot : Finset Slot :=
  {13, 14}

def Event.Creates (event : Event) : Prop :=
  event = .fork ∨ ∃ function stack, event = .clone function stack

instance Event.decidableCreates : DecidablePred Event.Creates
  | .fork => isTrue (.inl rfl)
  | .clone function stack => isTrue (.inr ⟨function, stack, rfl⟩)
  | .exit | .semInit _ _ | .semWait _ | .semSignal _ | .semDestroy _ | .read _ _ _ | .sbrk _ | .clock
  | .keyboard _ _ | .store _ _ | .resume => isFalse (by simp [Event.Creates])

/--
The PIDs of the live processes: a new process has the next PID, and the current one leaves with its own.
-/
def pidsAfter (event : Event) (k k' : Kernel) (pids : Finset Int) : Finset Int :=
  match event with
  | .fork | .clone _ _ =>
    if k'.incrementalPID = k.incrementalPID then pids else insert k.incrementalPID pids
  | .exit => pids.erase (k.task k.current).pid
  | _ => pids

def Event.lifeCycle : Event → Bool
  | .fork | .clone _ _ | .exit | .clock | .resume | .store _ _ => true
  | _ => false

namespace Sys

/-- The node of the first free PCB is not linked to itself. -/
def FirstFreeSound (s : Sys) : Prop :=
  ∀ t, firstTask .freequeue s.links = some t →
    s.links.next (.list t) ≠ some (.list t) ∧ s.links.prev (.list t) ≠ some (.list t)

instance decidableFirstFreeSound : DecidablePred FirstFreeSound :=
  fun s => inferInstanceAs (Decidable (∀ t ∈ firstTask .freequeue s.links,
    s.links.next (.list t) ≠ some (.list t) ∧ s.links.prev (.list t) ≠ some (.list t)))

/-- A step that creates a process takes out a PCB whose node is not linked to itself. -/
def TakesSound (i : Input) (x : Sys × Finset Slot) : Prop :=
  i.event.Creates → x.1.FirstFreeSound

instance decidableTakesSound (i : Input) : DecidablePred (TakesSound i) :=
  fun x => inferInstanceAs (Decidable (i.event.Creates → x.1.FirstFreeSound))

def stepLive : Input → Sys × Finset Slot → Option (Sys × Finset Slot) :=
  Run.ghost step fun i s s' =>
    liveAfter i.event s.toKernel s'.toKernel (firstTask .freequeue s.links)

def stepPids : Input → Sys × Finset Slot × Finset Int → Option (Sys × Finset Slot × Finset Int) :=
  Run.ghost step fun i s s' x =>
    (liveAfter i.event s.toKernel s'.toKernel (firstTask .freequeue s.links) x.1,
      pidsAfter i.event s.toKernel s'.toKernel x.2)

end Sys

end Zeos
