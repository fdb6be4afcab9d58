import Zeos.Lemmas.Frame
import Zeos.Lemmas.Refine
import Zeos.Spec.Live

/-!
One step of the machine: the processes stay in their places, and the two kernels stay in step.
-/

namespace Zeos

open Simulation

namespace Model

theorem step_eq_some {m m' : Model} {i : Input} (h : m.step i = some m')
    : ∃ k, m.entry i = some k ∧ routine i.event { m with toKernel := k } = some m' :=
  Option.bind_eq_some_iff.mp h

end Model

theorem idle_of_entry {k k' : Kernel} {i : Input} (hk : k.entry i = some k')
    (hevent : i.event.OfProcess) : k'.current ≠ k'.idleTask := by
  have hentered := Kernel.entered_of_entry hk
  rw [hentered.current, hentered.idleTask]
  exact Kernel.current_of_entry hk hevent

namespace Settled

open Model

variable {m m' : Model} {live : Finset Slot}

theorem entry (h : Settled m live) {i : Input} {k : Kernel} (hk : m.entry i = some k)
    : Settled { m with toKernel := k } live := by
  have hentered := Kernel.entered_of_entry hk
  apply h.mapKernel (f := fun _ => k)
  . intro t _
    obtain ⟨_, ht⟩ := hentered.task t
    rw [ht]
    rfl
  . exact ⟨hentered.idleTask, hentered.cont _⟩
  . exact hentered.current
  . intro i
    rw [hentered.semaphores]

theorem sysSbrk (h : Settled m live) (incr : Int)
    : Settled { m with toKernel := (m.sysSbrk incr).2 } live := by
  obtain ⟨task, mm, cr3, heq, htask⟩ := Kernel.sysSbrk_eq incr m.toKernel
  apply h.mapKernel (f := fun k => (k.sysSbrk incr).2)
  . intro t _
    obtain ⟨b, hb⟩ := htask t
    rw [heq]
    have hestado := congrArg TaskStruct.estado hb
    exact hestado
  . rw [heq]
    exact ⟨rfl, .inl rfl⟩
  . rw [heq]
  . intro i
    rw [heq]

theorem userStore (h : Settled m live) {a : Addr} {v : Byte} {k : Kernel}
    (hk : m.userStore a v = some k) : Settled { m with toKernel := k } live := by
  obtain ⟨mm, rfl⟩ := Kernel.userStore_eq_some hk
  exact h.mapKernel (f := fun k => { k with mm := mm }) (fun _ _ => rfl) ⟨rfl, .inl rfl⟩ rfl
    (fun _ => rfl)

theorem liveAfter_new {k k' : Kernel} {event : Event} {free : Option Slot}
    (hevent : event = .fork ∨ ∃ function stack, event = .clone function stack)
    (h : (k'.incrementalPID = k.incrementalPID ∧ Settled m live) ∨
      (k'.incrementalPID = k.incrementalPID + 1 ∧ ∃ new ∈ free, Settled m (insert new live)))
    : Settled m (liveAfter event k k' free live) := by
  have heq : liveAfter event k k' free live =
      if k'.incrementalPID = k.incrementalPID then live
      else free.elim live fun t => insert t live := by
    rcases hevent with rfl | ⟨_, _, rfl⟩ <;> rfl
  rw [heq]
  rcases h with ⟨hpid, h⟩ | ⟨hpid, new, hnew, h⟩
  . rw [if_pos hpid]
    exact h
  . rw [if_neg (by omega), Option.mem_def.mp hnew]
    exact h

theorem routine (h : Settled m live) {event : Event}
    (hidle : event.OfProcess → m.current ≠ m.idleTask) (hm' : routine event m = some m')
    : Settled m' (liveAfter event m.toKernel m'.toKernel (m.seq .freequeue).head? live) := by
  cases event with
  | fork =>
    obtain ⟨x, hx, rfl⟩ := Option.map_eq_some_iff.mp hm'
    apply liveAfter_new (.inl rfl)
    rcases h.fork hx with ⟨hpid, hs⟩ | ⟨hpid, new, hnew, hs⟩
    . exact .inl ⟨hpid, hs.ret _⟩
    . exact .inr ⟨hpid, new, hnew, hs.ret _⟩
  | clone function stack =>
    cases hm'
    apply liveAfter_new (.inr ⟨function, stack, rfl⟩)
    rcases h.clone function stack with ⟨hpid, hs⟩ | ⟨hpid, new, hnew, hs⟩
    . exact .inl ⟨hpid, hs.ret _⟩
    . exact .inr ⟨hpid, new, hnew, hs.ret _⟩
  | exit =>
    cases hm'
    exact h.exit (hidle (by simp [Event.OfProcess]))
  | semInit nSem value =>
    obtain ⟨x, hx, rfl⟩ := Option.map_eq_some_iff.mp hm'
    exact (h.semInit hx).ret _
  | semWait nSem =>
    cases hm'
    exact h.semWait (hidle (by simp [Event.OfProcess])) nSem
  | semSignal nSem =>
    cases hm'
    exact (h.semSignal nSem).ret _
  | semDestroy nSem =>
    cases hm'
    exact (h.semDestroy nSem).ret _
  | read fd buf count =>
    cases hm'
    exact h.read (hidle (by simp [Event.OfProcess])) fd buf count
  | sbrk incr =>
    cases hm'
    exact (h.sysSbrk incr).ret _
  | clock =>
    cases hm'
    exact h.clockRutine
  | keyboard entrada beyond =>
    cases hm'
    exact h.keyboardRutine entrada beyond
  | store a v =>
    obtain ⟨k, hk, rfl⟩ := Option.map_eq_some_iff.mp hm'
    exact h.userStore hk
  | resume =>
    cases hm'
    exact h.resume

theorem liveAfter_entry {k k' k'' : Kernel} {i : Input} (hk : k.entry i = some k') {event : Event}
    {free : Option Slot} : liveAfter event k' k'' free live = liveAfter event k k'' free live := by
  have hentered := Kernel.entered_of_entry hk
  unfold liveAfter
  rw [hentered.incrementalPID, hentered.current]

theorem step (h : Settled m live) {i : Input} (hstep : m.step i = some m')
    : Settled m' (liveAfter i.event m.toKernel m'.toKernel (m.seq .freequeue).head? live) := by
  obtain ⟨k, hk, hm'⟩ := step_eq_some hstep
  rw [← liveAfter_entry hk]
  exact (h.entry hk).routine (idle_of_entry hk) hm'

end Settled

section Freequeue

open Model

variable {m m' : Model} {live : Finset Slot}

namespace Settled

theorem freequeue_takeCopy {t : Slot} {ts : List Slot} (hcons : m.seq .freequeue = t :: ts)
    : (m.takeCopy t).seq .freequeue = ts := by
  change (m.seq .freequeue).erase t = ts
  rw [hcons, List.erase_cons_head]

theorem freequeue_fork {x : Int × Model} (hfork : m.fork = some x)
    : x.2.seq .freequeue = (m.seq .freequeue).tail ∧
        x.2.queues.shape .freequeue = m.queues.shape .freequeue := by
  unfold Model.fork at hfork
  split at hfork
  next hnil =>
    cases hfork
    exact ⟨by rw [hnil]; rfl, rfl⟩
  next new rest hcons =>
    have htake := freequeue_takeCopy hcons
    rw [hcons]
    dsimp only at hfork
    split at hfork
    next =>
      cases hfork
      exact ⟨htake, rfl⟩
    next =>
      obtain ⟨⟨enough, k⟩, -, rfl⟩ := Option.map_eq_some_iff.mp hfork
      cases enough with
      | true => exact ⟨htake, rfl⟩
      | false => exact ⟨htake, rfl⟩

theorem freequeue_clone (function stack : Addr)
    : ((m.clone function stack).2.seq .freequeue = m.seq .freequeue ∨
          (m.clone function stack).2.seq .freequeue = (m.seq .freequeue).tail) ∧
        (m.clone function stack).2.queues.shape .freequeue = m.queues.shape .freequeue := by
  unfold Model.clone
  split
  next => exact ⟨.inl rfl, rfl⟩
  next =>
    split
    next => exact ⟨.inl rfl, rfl⟩
    next new rest hcons =>
      refine ⟨.inr ?_, rfl⟩
      rw [hcons]
      exact freequeue_takeCopy hcons

theorem freequeue_exit (h : Settled m live) (hidle : m.current ≠ m.idleTask)
    : m.exit.seq .freequeue = m.seq .freequeue ++ [m.current] ∧
        m.exit.queues.shape .freequeue =
          (m.queues.shape .freequeue).append.again ((m.seq .freequeue).length + 1) := by
  obtain ⟨-, -, hseq, hshape⟩ := h.destroyOwned_retired hidle
  have hkept : Kept .freequeue m.exited m.exit := .schedNext (h.exited hidle) (by simp)
  have hagain : m.exited.seq .freequeue = m.retired.destroyOwned.seq .freequeue :=
    Queues.seq_again
  constructor
  . rw [hkept.seq, hagain, hseq]
  . rw [hkept.shape]
    simp only [Model.exited, queues_mapKernel, queues_mapQueues, Queues.shape_again, if_true, hshape]
    rw [Placed.seq_eq, hseq, List.length_append, List.length_singleton]

theorem freequeue_routine (h : Settled m live) {event : Event}
    (hidle : event.OfProcess → m.current ≠ m.idleTask) (hexit : event ≠ .exit)
    (hm' : Model.routine event m = some m')
    : m'.queues.shape .freequeue = m.queues.shape .freequeue ∧
        (m'.seq .freequeue = m.seq .freequeue ∨
          (event.Creates ∧ m'.seq .freequeue = (m.seq .freequeue).tail)) := by
  have of_kept : Kept .freequeue m m' → m'.queues.shape .freequeue = m.queues.shape .freequeue ∧
        (m'.seq .freequeue = m.seq .freequeue ∨
          (event.Creates ∧ m'.seq .freequeue = (m.seq .freequeue).tail)) :=
    fun hkept => ⟨hkept.shape, .inl hkept.seq⟩
  cases event with
  | fork =>
    obtain ⟨x, hx, rfl⟩ := Option.map_eq_some_iff.mp hm'
    obtain ⟨hseq, hshape⟩ := freequeue_fork hx
    exact ⟨hshape, .inr ⟨.inl rfl, hseq⟩⟩
  | clone function stack =>
    cases hm'
    obtain ⟨hseq, hshape⟩ := freequeue_clone (m := m) function stack
    exact ⟨hshape, hseq.imp_right fun hseq => ⟨.inr ⟨function, stack, rfl⟩, hseq⟩⟩
  | exit => exact absurd rfl hexit
  | semInit nSem value =>
    obtain ⟨x, hx, rfl⟩ := Option.map_eq_some_iff.mp hm'
    exact of_kept ((Kept.semInit hx (by simp)).trans (.result _))
  | semWait nSem =>
    cases hm'
    exact of_kept (.semWait h (hidle (by simp [Event.OfProcess])) nSem (by simp) (by simp))
  | semSignal nSem =>
    cases hm'
    exact of_kept ((Kept.semSignal h nSem (by simp) (by simp)).trans (.result _))
  | semDestroy nSem =>
    cases hm'
    exact of_kept ((Kept.semDestroy h.placed nSem (by simp) (by simp)).trans (.result _))
  | read fd buf count =>
    cases hm'
    exact of_kept
      (.read h (hidle (by simp [Event.OfProcess])) fd buf count (by simp) (by simp))
  | sbrk incr =>
    cases hm'
    exact of_kept ⟨rfl, rfl⟩
  | clock =>
    cases hm'
    exact of_kept (.clockRutine h (by simp))
  | keyboard entrada beyond =>
    cases hm'
    exact of_kept (.keyboardRutine h entrada beyond (by simp) (by simp))
  | store a v =>
    obtain ⟨k, -, rfl⟩ := Option.map_eq_some_iff.mp hm'
    exact of_kept ⟨rfl, rfl⟩
  | resume =>
    cases hm'
    exact of_kept (.resume h (by simp) (by simp))

theorem freequeue_step (h : Settled m live) {i : Input} (hexit : i.event ≠ .exit)
    (hstep : m.step i = some m')
    : m'.queues.shape .freequeue = m.queues.shape .freequeue ∧
        (m'.seq .freequeue = m.seq .freequeue ∨
          (i.event.Creates ∧ m'.seq .freequeue = (m.seq .freequeue).tail)) := by
  obtain ⟨k, hk, hm'⟩ := step_eq_some hstep
  apply (h.entry hk).freequeue_routine (idle_of_entry hk) hexit hm'

theorem freequeue_step_exit (h : Settled m live) {i : Input} (hexit : i.event = .exit)
    (hstep : m.step i = some m')
    : m'.seq .freequeue = m.seq .freequeue ++ [m.current] ∧
        m'.queues.shape .freequeue =
          (m.queues.shape .freequeue).append.again ((m.seq .freequeue).length + 1) := by
  obtain ⟨k, hk, hm'⟩ := step_eq_some hstep
  have hidle := idle_of_entry hk (by simp [hexit, Event.OfProcess])
  rw [hexit] at hm'
  cases hm'
  have := (h.entry hk).freequeue_exit hidle
  rwa [(Kernel.entered_of_entry hk).current] at this

end Settled

end Freequeue

namespace Refines

variable {s : Sys} {m : Model} {live : Finset Slot}

theorem routine (hr : Refines s m) (h : Settled m live) {event : Event}
    (hidle : event.OfProcess → m.current ≠ m.idleTask) (hopen : m.FreeOpen)
    (htake : event.Creates → m.seq .freequeue = [] ∨ m.Takeable)
    : Option.Rel Refines (s.routine event) (m.routine event) := by
  have hset : m.queues.shape .freequeue ≠ .unset := by
    rcases hopen with hopen | ⟨_, hopen⟩ <;> simp [hopen]
  have hresult : ∀ {x : Option (Int × Sys)} {y : Option (Int × Model)},
      Option.Rel RefinesCall x y → Option.Rel Refines (x.map Sys.result) (y.map Model.result) := by
    intro x y h
    apply rel_map h
    rintro ⟨r, s⟩ ⟨_, m⟩ ⟨rfl, hr⟩
    exact hr.ret _
  cases event with
  | fork => exact hresult (hr.sysFork h hset (htake (.inl rfl)))
  | clone function stack =>
    exact hresult (hr.sysClone h function stack hset (htake (.inr ⟨function, stack, rfl⟩)))
  | exit => exact hr.sysExit h (hidle (by simp [Event.OfProcess])) hopen
  | semInit nSem value => exact hresult (hr.sysSemInit h nSem value)
  | semWait nSem => exact hr.sysSemWait h (hidle (by simp [Event.OfProcess])) nSem
  | semSignal nSem => exact hresult (hr.sysSemSignal h nSem)
  | semDestroy nSem => exact hresult (hr.sysSemDestroy h.placed nSem)
  | read fd buf count => exact hr.sysRead h (hidle (by simp [Event.OfProcess])) fd buf count
  | sbrk incr =>
    unfold Sys.routine Model.routine
    rw [hr.kernel]
    exact .some ((hr.setKernel _).ret _)
  | clock => exact hr.clockRutine h
  | keyboard entrada beyond => exact hr.keyboardRutine h entrada beyond
  | store a v =>
    unfold Sys.routine Model.routine
    dsimp only
    rw [hr.kernel]
    cases m.userStore a v with
    | none => exact .none
    | some k => exact .some (hr.setKernel k)
  | resume => exact hr.resume h

theorem step (hr : Refines s m) (h : Settled m live) (i : Input) (hopen : m.FreeOpen)
    (htake : i.event.Creates → m.seq .freequeue = [] ∨ m.Takeable)
    : Option.Rel Refines (s.step i) (m.step i) := by
  unfold Sys.step Model.step
  rw [hr.kernel]
  cases hk : m.entry i with
  | none => exact .none
  | some k => exact (hr.setKernel k).routine (h.entry hk) (idle_of_entry hk) hopen htake

theorem firstFreeSound_of_ring (hr : Refines s m) (hring : m.queues.shape .freequeue = .ring)
    : s.FirstFreeSound := by
  intro t ht
  rw [hr.firstTask_eq (by simp [hring])] at ht
  obtain ⟨ts, hcons⟩ := List.head?_eq_some_iff.mp ht
  have hs := hr.links.shaped .freequeue
  rw [hring, Placed.seq_eq, hcons] at hs
  exact ⟨Links.Ring.next_ne_self hs (by simp), Links.Ring.prev_ne_self hs (by simp)⟩

theorem takeable_of_firstFreeSound (hr : Refines s m) (hopen : m.FreeOpen)
    (hsound : s.FirstFreeSound) : m.seq .freequeue = [] ∨ m.Takeable := by
  rcases hopen with hring | ⟨anchored, hknot⟩
  . exact .inr (.inl hring)
  . cases hseq : m.seq .freequeue with
    | nil => exact .inl rfl
    | cons t ts =>
      obtain ⟨hnext, hprev⟩ := hsound t (by rw [hr.firstTask_eq (by simp [hknot]), hseq]; rfl)
      have hs := hr.links.shaped .freequeue
      rw [hknot, Placed.seq_eq, hseq] at hs
      obtain ⟨hanchored, hne⟩ := hs.of_first_ne_self hnext hprev
      refine .inr (.inr ⟨by rw [hknot, hanchored], ?_⟩)
      rw [ne_eq, List.map_eq_nil_iff] at hne
      rw [hseq, List.length_cons]
      have := List.length_pos_iff.mpr hne
      omega

end Refines

/--
The abstract kernel follows the machine, whose processes are where they should be.
-/
structure Follows (x : Sys × Finset Slot) (m : Model) : Prop where
  refines : Refines x.1 m
  settled : Settled m x.2
  free_open : m.FreeOpen

namespace Follows

variable {x y : Sys × Finset Slot} {m : Model}

theorem step (h : Follows x m) {i : Input} (hsound : Sys.TakesSound i x)
    (hstep : Sys.stepLive i x = some y) : ∃ m', m.step i = some m' ∧ Follows y m' := by
  obtain ⟨hstep, hlive⟩ := Run.ghost_eq_some.mp hstep
  have hrel := h.refines.step h.settled i h.free_open
    (fun hcreates => h.refines.takeable_of_firstFreeSound h.free_open (hsound hcreates))
  rw [hstep] at hrel
  cases hm' : m.step i with
  | none =>
    rw [hm'] at hrel
    cases hrel
  | some m' =>
    rw [hm'] at hrel
    obtain ⟨hr⟩ := hrel
    refine ⟨m', rfl, hr, ?_, ?_⟩
    . have hset : m.queues.shape .freequeue ≠ .unset := by
        rcases h.free_open with hopen | ⟨_, hopen⟩ <;> simp [hopen]
      rw [hlive, h.refines.firstTask_eq hset, h.refines.kernel, hr.kernel]
      exact h.settled.step hm'
    . by_cases hexit : i.event = .exit
      . obtain ⟨-, hshape⟩ := h.settled.freequeue_step_exit hexit hm'
        right
        rw [hshape]
        rcases h.free_open with hopen | ⟨anchored, hopen⟩
        . exact ⟨_, by rw [hopen]; rfl⟩
        . exact ⟨_, by rw [hopen]; rfl⟩
      . obtain ⟨hshape, -⟩ := h.settled.freequeue_step hexit hm'
        unfold Model.FreeOpen
        rw [hshape]
        exact h.free_open

end Follows

end Zeos
