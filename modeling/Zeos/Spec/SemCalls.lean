import Zeos.Spec.Accounts

/-!
What becomes of the calls of `sys_sem_wait` that block. An entry of the table may be destroyed and opened
again before they come back, so that they are told apart by the instance they have blocked on.
-/

namespace Zeos

/-- The semaphore that the entry holds from one opening of it to the next. -/
structure SemInstance where
  entry : SemIx
  opening : Nat
  deriving DecidableEq, Repr

inductive Outcome
  | signalled
  | destroyed
  deriving DecidableEq, Repr

def Outcome.value : Outcome → Int
  | .signalled => 0
  | .destroyed => -1

/-- A call that has blocked: the instance it is blocked on, and which one has let it go, if it has. -/
structure WaitCall where
  on : SemInstance
  release : Option (Outcome × SemInstance)
  deriving DecidableEq, Repr

structure Answer where
  call : Option WaitCall
  ret : Int
  deriving DecidableEq, Repr

/-- The instance the call was blocked on has let it go, and the result says how. -/
def Answer.Right (a : Answer) : Prop :=
  ∃ on outcome, a.call = some { on := on, release := some (outcome, on) } ∧ a.ret = outcome.value

/--
How often each entry has been opened, who waits there in the order of the calls, how the call of each
process stands, and the calls that have come back.
-/
structure SemCalls where
  openings : SemIx → Nat
  queue : SemIx → List Slot
  calls : Slot → Option WaitCall
  answers : List Answer

namespace SemCalls

def boot : SemCalls :=
  { openings := fun _ => 0, queue := fun _ => [], calls := fun _ => none, answers := [] }

def current (i : SemIx) (x : SemCalls) : SemInstance :=
  { entry := i, opening := x.openings i }

def opened (i : SemIx) (x : SemCalls) : SemCalls :=
  { x with
    openings := Function.update x.openings i (x.openings i + 1)
    queue := Function.update x.queue i [] }

def blocked (i : SemIx) (t : Slot) (x : SemCalls) : SemCalls :=
  { x with
    queue := Function.update x.queue i (x.queue i ++ [t])
    calls := Function.update x.calls t (some { on := x.current i, release := none }) }

/-- Those in the queue of `i` that do not stay there are let go. -/
def released (i : SemIx) (outcome : Outcome) (stay : List Slot) (x : SemCalls) : SemCalls :=
  { x with
    queue := Function.update x.queue i ((x.queue i).filter fun t => t ∈ stay)
    calls := fun t =>
      if t ∈ x.queue i ∧ t ∉ stay then
        (x.calls t).map fun c => { c with release := some (outcome, x.current i) }
      else x.calls t }

def returned (t : Slot) (r : Int) (x : SemCalls) : SemCalls :=
  { x with
    calls := Function.update x.calls t none
    answers := x.answers ++ [{ call := x.calls t, ret := r }] }

def after (event : Event) (k k' : Kernel) (waiters : SemIx → List Slot) (x : SemCalls) : SemCalls :=
  match event with
  | .semInit n _ =>
    if (k.cercaSem n).isSome then x else k.cercaSemLliure.elim x fun i => x.opened i
  | .semWait n =>
    (k.cercaSem n).elim x fun i => if k'.cont k.current = .semWait then x.blocked i k.current else x
  | .semSignal n => (k.cercaSem n).elim x fun i => x.released i .signalled (waiters i)
  | .semDestroy n =>
    (k.cercaSem n).elim x fun i =>
      if (k'.semaphores i).state = .freeSem then x.released i .destroyed [] else x
  | .resume =>
    if k.cont k.current = .semWait then x.returned k.current (k'.eax k.current) else x
  | _ => x

end SemCalls

namespace Sys

def stepSems : Input → Sys × SemCalls → Option (Sys × SemCalls) :=
  Run.ghost step fun i s s' x =>
    x.after i.event s.toKernel s'.toKernel fun j => s'.members (.blockedQueue j)

/-- No call of `sys_sem_wait` gets lost, and each comes back with the right result. -/
structure CallsAnswered (x : Sys × SemCalls) : Prop where
  right : ∀ a ∈ x.2.answers, a.Right
  recorded : ∀ t, x.1.cont t = .semWait ↔ x.2.calls t ≠ none
  waiting : ∀ t on, x.2.calls t = some { on := on, release := none } →
    (x.1.semaphores on.entry).state = .usedSem ∧ x.2.current on.entry = on ∧
      t ∈ x.1.members (.blockedQueue on.entry)
  order : ∀ i, (x.1.semaphores i).state = .usedSem →
    x.1.members (.blockedQueue i) = x.2.queue i
  /-- Nobody is blocked on an entry that is free. -/
  blocked : ∀ t, x.1.cont t = .semWait → (x.1.task t).estado = .stBlocked →
    ∃ i, (x.1.semaphores i).state = .usedSem ∧ t ∈ x.1.members (.blockedQueue i)

/-- The owner of a semaphore can destroy it, and all who wait for it are the last in `readyqueue` then. -/
def CanDestroy (x : Sys × SemCalls) : Prop :=
  ∀ (e : Input) (n : Int) (i : SemIx), e.event = .semDestroy n → (x.1.entry e).isSome →
    x.1.cercaSem n = some i → (x.1.semaphores i).owner = (x.1.task x.1.current).pid →
    ∃ s', x.1.step e = some s' ∧ s'.eax x.1.current = 0 ∧
      (s'.semaphores i).state = .freeSem ∧ s'.members (.blockedQueue i) = [] ∧
      s'.members .readyqueue = x.1.members .readyqueue ++ x.2.queue i

end Sys

end Zeos
