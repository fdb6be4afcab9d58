import Mathlib.Data.Fintype.Card
import Zeos.Lib.Simulation
import Zeos.Lemmas.List
import Zeos.Lemmas.Placed

/-!
The kernel with linked nodes does what the one over sequences does, as long as the processes are in their
places and no free PCB is taken whose node is linked to itself.
-/

namespace Zeos

open Simulation

structure Refines (s : Sys) (m : Model) : Prop where
  kernel : s.toKernel = m.toKernel
  links : Represents s.links m.queues

def RefinesCall (x : Int × Sys) (y : Int × Model) : Prop :=
  x.1 = y.1 ∧ Refines x.2 y.2

namespace Placed

variable {m : Model} {live : Finset Slot} {run : Option Slot} {t : Slot} {q : Queue}

theorem shape_of_mem (h : Placed m live run) (ht : t ∈ live) (hq : t ∈ m.seq q)
    : m.queues.shape q = .ring := by
  cases hest : m.estado t with
  | stRun => exact absurd ⟨q, hq⟩ (h.of_stRun t ht hest).1
  | stReady =>
    rw [h.disjoint _ _ t hq (h.of_stReady t ht hest)]
    exact h.ready
  | stBlocked =>
    obtain ⟨q', hw, hq'⟩ := h.of_stBlocked t ht hest
    rw [h.disjoint _ _ t hq hq']
    rcases hw with rfl | ⟨i, rfl, hi⟩
    . exact h.keyboard
    . exact h.sem i hi

end Placed

namespace Refines

variable {s : Sys} {m : Model} {live : Finset Slot} {run : Option Slot} {t : Slot} {q : Queue}

theorem mapKernel (hr : Refines s m) (f : Kernel → Kernel)
    : Refines (s.mapKernel f) (m.mapKernel f) := by
  constructor
  . exact congrArg f hr.kernel
  . exact hr.links

theorem setKernel (hr : Refines s m) (k : Kernel)
    : Refines { s with toKernel := k } { m with toKernel := k } :=
  hr.mapKernel (fun _ => k)

theorem mapLinks (hr : Refines s m) {f : Links ListHead → Option (Links ListHead)}
    {g : Queues → Queues} (h : ∃ h', f s.links = some h' ∧ Represents h' (g m.queues))
    : Option.Rel Refines (s.mapLinks f) (some (m.mapQueues g)) := by
  obtain ⟨h', hf, hlinks⟩ := h
  unfold Sys.mapLinks
  rw [hf]
  exact .some ⟨hr.kernel, hlinks⟩

theorem listEmpty_eq (hr : Refines s m) (hset : m.queues.shape q ≠ .unset)
    : listEmpty (.head q) s.links = (m.seq q).isEmpty := by
  rw [Bool.eq_iff_iff, hr.links.listEmpty_iff hset, List.isEmpty_iff]
  rfl

theorem firstTask_eq (hr : Refines s m) (hset : m.queues.shape q ≠ .unset)
    : firstTask q s.links = (m.seq q).head? :=
  hr.links.firstTask_eq hset

theorem unlink (hr : Refines s m) (hp : Placed m live run) (ht : t ∈ live)
    : Option.Rel Refines
        (if (s.task t).estado ≠ .stRun then s.mapLinks (listDel (.list t)) else some s)
        (some (m.mapQueues (Queues.remove t))) := by
  have hlinked := hp.linked_iff ht
  rw [hr.kernel]
  split
  next hne =>
    obtain ⟨q, hq⟩ := hlinked.mpr hne
    apply hr.mapLinks
    exact hr.links.listDel hq (hp.shape_of_mem ht hq)
  next hrun =>
    have hfree : ¬m.queues.Linked t := fun h => hrun (hlinked.mp h)
    apply Option.Rel.some
    constructor
    . exact hr.kernel
    . rw [Model.queues_mapQueues, Queues.remove_of_not_linked hfree]
      exact hr.links

theorem updateProcessStateRr_none (hr : Refines s m) (hp : Placed m live run) (ht : t ∈ live)
    : Option.Rel Refines (s.updateProcessStateRr t none) (some (m.updateProcessState t none)) := by
  unfold Sys.updateProcessStateRr
  apply rel_bind_some (hr.unlink hp ht)
  intro s' hr'
  exact .some (hr'.mapKernel _)

theorem listAddTail (hr : Refines s m) (hfree : ¬m.queues.Linked t)
    (hshape : m.queues.shape q = .ring ∨ ∃ anchored, m.queues.shape q = .knot false anchored)
    : Option.Rel Refines (s.mapLinks (listAddTail (.list t) (.head q)))
        (some (m.mapQueues (Queues.append t q))) := by
  apply hr.mapLinks
  exact hr.links.listAddTail hfree hshape

theorem updateProcessStateRr_some (hr : Refines s m) (hp : Placed m live run) (ht : t ∈ live)
    (hring : m.queues.shape q = .ring)
    : Option.Rel Refines (s.updateProcessStateRr t (some q))
        (some (m.updateProcessState t (some q))) := by
  unfold Sys.updateProcessStateRr
  apply rel_bind_some (hr.unlink hp ht)
  intro s' hr'
  have hfree : ¬(m.queues.remove t).Linked t := by
    rintro ⟨q', hq'⟩
    exact (hp.mem_remove.mp hq').1 rfl
  apply rel_bind_some (hr'.listAddTail hfree (.inl hring))
  intro s'' hr''
  exact .some (hr''.mapKernel _)

theorem schedNextRr (hr : Refines s m) (hp : Placed m live none)
    : Option.Rel Refines s.schedNextRr (some m.schedNext) := by
  have hset : m.queues.shape .readyqueue ≠ .unset := by simp [hp.ready]
  unfold Sys.schedNextRr Model.schedNext
  rw [hr.listEmpty_eq hset, hr.firstTask_eq hset]
  cases hseq : m.seq .readyqueue with
  | nil => exact .some (hr.mapKernel _)
  | cons t ts =>
    have ht : t ∈ m.seq .readyqueue := by simp [hseq]
    apply rel_bind_some
      ((hr.mapKernel _).updateProcessStateRr_none (hp.schedData t) (hp.estado_of_mem_ready ht).1)
    intro s' hr'
    exact .some (hr'.mapKernel _)

theorem exitRunCurrent (hr : Refines s m) (hp : Placed m live run) (ht : m.current ∈ live)
    (hring : m.queues.shape q = .ring)
    : Option.Rel Refines (s.exitRunCurrent q) (some (m.exitRunCurrent q)) := by
  unfold Sys.exitRunCurrent
  rw [hr.kernel]
  exact (hr.mapKernel _).updateProcessStateRr_some hp.exitRunData ht hring

theorem needsSchedRr (hr : Refines s m) (hset : m.queues.shape .readyqueue ≠ .unset)
    : s.needsSchedRr.1 = m.needsSched.1 ∧ Refines s.needsSchedRr.2 m.needsSched.2 := by
  have hqLeft : s.qLeft = m.qLeft := by rw [hr.kernel]
  unfold Sys.needsSchedRr Model.needsSched
  rw [hr.listEmpty_eq hset]
  cases hseq : m.seq .readyqueue with
  | nil =>
    by_cases hzero : m.qLeft = 0
    . simp only [List.isEmpty_nil, hqLeft, hzero, Bool.not_true, Bool.false_and, Bool.false_eq_true,
        Bool.not_false, decide_true, Bool.and_self, if_false, if_true, ne_eq, not_true, false_and,
        and_self]
      exact ⟨trivial, hr.mapKernel _⟩
    . simp [hqLeft, hzero, hr]
  | cons t ts =>
    by_cases hzero : m.qLeft = 0
    . simp [hqLeft, hzero, hr]
    . simp [hqLeft, hzero, hr]

theorem schedule (hr : Refines s m) (h : Settled m live)
    : Option.Rel Refines s.schedule (some m.schedule) := by
  have hdata := h.updateSchedDataRr
  have hset : m.queues.shape .readyqueue ≠ .unset := by simp [h.placed.ready]
  obtain ⟨hneeds, hr'⟩ := (hr.mapKernel Kernel.updateSchedDataRr).needsSchedRr hset
  have hsettled := hdata.needsSched
  unfold Sys.schedule Model.schedule
  dsimp only
  rw [hneeds]
  split
  next =>
    apply rel_bind_some
      (hr'.exitRunCurrent hsettled.placed hsettled.live hsettled.placed.ready)
    intro s'' hr''
    exact hr''.schedNextRr (hsettled.placed.exitRunCurrent hsettled.live (.inl rfl))
  next => exact .some hr'

theorem clockRutine (hr : Refines s m) (h : Settled m live)
    : Option.Rel Refines s.clockRutine (some m.clockRutine) :=
  (hr.mapKernel _).schedule h.tick

theorem ret (hr : Refines s m) (r : Int) : Refines (s.ret r) (m.ret r) :=
  hr.mapKernel _

section Keyboard

theorem keyboardRutine (hr : Refines s m) (h : Settled m live) (entrada beyond : Byte)
    : Option.Rel Refines (s.keyboardRutine entrada beyond)
        (some (m.keyboardRutine entrada beyond)) := by
  have hset : m.queues.shape .keyboardqueue ≠ .unset := by simp [h.placed.keyboard]
  have hr' := hr.mapKernel (Kernel.keyPressed entrada beyond)
  unfold Sys.keyboardRutine Model.keyboardRutine
  dsimp only
  rw [hr'.listEmpty_eq hset, hr'.firstTask_eq hset, hr'.kernel]
  split
  next =>
    cases hseq : (m.mapKernel (Kernel.keyPressed entrada beyond)).seq .keyboardqueue with
    | nil => exact .some hr'
    | cons ts rest =>
      simp only [List.isEmpty_cons, Bool.not_false, if_true, List.head?_cons, Option.bind_eq_bind,
        Option.bind_some]
      split
      next =>
        have hkey := h.keyPressed entrada beyond
        have hts := hkey.placed.live_of_mem .keyboardqueue (by simp) ts (by rw [hseq]; simp)
        exact hr'.updateProcessStateRr_some hkey.placed hts h.placed.ready
      next => exact .some hr'
  next => exact .some hr

theorem waitKeyboard (hr : Refines s m) (h : Settled m live) (hidle : m.current ≠ m.idleTask)
    (buff : Addr) : Option.Rel Refines (s.waitKeyboard buff) (some (m.waitKeyboard buff)) := by
  unfold Sys.waitKeyboard
  rw [hr.kernel]
  apply rel_bind_some (b := m.mapQueues (Queues.push m.current .keyboardqueue))
  . apply hr.mapLinks
    exact hr.links.listAdd h.not_linked h.placed.keyboard
  . intro s' hr'
    exact (hr'.mapKernel _).schedNextRr (h.blockReading hidle buff)

theorem readKeyboardBody (hr : Refines s m) (h : Settled m live) (hidle : m.current ≠ m.idleTask)
    (buff : Addr)
    : Option.Rel Refines (s.readKeyboardBody buff) (some (m.readKeyboardBody buff)) := by
  unfold Sys.readKeyboardBody Model.readKeyboardBody
  dsimp only
  rw [hr.kernel]
  split
  next =>
    split
    next => exact .some (hr.setKernel _)
    next => exact .some ((hr.setKernel _).ret _)
  next =>
    split
    next =>
      split
      next => exact .some (hr.setKernel _)
      next =>
        exact (hr.setKernel _).waitKeyboard (h.readKeys cirBufferSize buff cirBufferSize)
          (Settled.readKeys_ne_idle hidle _ _ _) _
    next => exact hr.waitKeyboard h hidle buff

theorem sysRead (hr : Refines s m) (h : Settled m live) (hidle : m.current ≠ m.idleTask) (fd : Int)
    (buf : Addr) (count : Int)
    : Option.Rel Refines (s.sysRead fd buf count) (some (m.read fd buf count)) := by
  have hset : m.queues.shape .keyboardqueue ≠ .unset := by simp [h.placed.keyboard]
  have hr' := hr.mapKernel (Kernel.requireKeys count)
  unfold Sys.sysRead Model.read
  split
  next => exact .some (hr.ret _)
  split
  next => exact .some (hr.ret _)
  split
  next => exact .some (hr.ret _)
  split
  next => exact .some (hr.ret _)
  unfold Sys.sysReadKeyboard Model.readKeyboard
  dsimp only
  rw [hr'.listEmpty_eq hset, hr'.kernel]
  cases hseq : (m.mapKernel (Kernel.requireKeys count)).seq .keyboardqueue with
  | nil => exact hr'.readKeyboardBody (h.requireKeys count) hidle buf
  | cons t ts =>
    have hrequire := h.requireKeys count
    apply rel_bind_some
      (hr'.updateProcessStateRr_some hrequire.placed hrequire.live h.placed.keyboard)
    intro s'' hr''
    exact (hr''.mapKernel _).schedNextRr (hrequire.queueReading hidle buf)

end Keyboard

section Semaphores

theorem sysSemInit (hr : Refines s m) (h : Settled m live) (nSem : Int) (value : BitVec 32)
    : Option.Rel RefinesCall (s.sysSemInit nSem value) (m.semInit nSem value) := by
  unfold Sys.sysSemInit Model.semInit
  rw [hr.kernel]
  split
  next => exact .some ⟨rfl, hr⟩
  next =>
    cases hi : m.cercaSemLliure with
    | none => exact .none
    | some i =>
      have hfree : (m.semaphores i).state = .freeSem := by simpa using List.find?_some hi
      apply Option.Rel.some
      refine ⟨rfl, (hr.mapKernel (Kernel.openSem i nSem value)).kernel, ?_⟩
      exact hr.links.initListHead (h.placed.seq_blockedQueue_eq_nil hfree)

theorem unblockAll {i : SemIx} (hr : Refines s m) (hp : Placed m live run)
    (hi : (m.semaphores i).state = .usedSem) {ts : List Slot} (hts : m.seq (.blockedQueue i) = ts)
    {fuel : Nat} (hfuel : ts.length < fuel)
    : Option.Rel Refines (s.unblockAll i fuel) (some (m.unblock ts)) := by
  have hset : m.queues.shape (.blockedQueue i) ≠ .unset := by simp [hp.sem i hi]
  induction ts generalizing s m fuel with
  | nil =>
    obtain ⟨fuel, rfl⟩ := Nat.exists_eq_add_of_lt hfuel
    unfold Sys.unblockAll
    rw [hr.listEmpty_eq hset, hts]
    exact .some hr
  | cons t ts ih =>
    obtain ⟨fuel, rfl⟩ := Nat.exists_eq_add_of_lt hfuel
    have ht : t ∈ m.seq (.blockedQueue i) := by simp [hts]
    have hret := hp.setSemRet t (-1)
    have hwake := hret.wake (q := .blockedQueue i) (by simp) (by simp) ht
    unfold Sys.unblockAll
    rw [hr.listEmpty_eq hset, hr.firstTask_eq hset, hts]
    apply rel_bind_some ((hr.mapKernel _).updateProcessStateRr_some hret
      (hp.live_of_mem _ (by simp) t ht) hp.ready)
    intro s' hr'
    apply ih hr' hwake hi (Placed.seq_wake (by simp) hts)
    . simp only [List.length_cons] at hfuel ⊢
      omega
    . simp [hwake.sem i hi]

theorem sysSemDestroy (hr : Refines s m) (hp : Placed m live run) (nSem : Int)
    : Option.Rel RefinesCall (s.sysSemDestroy nSem) (some (m.semDestroy nSem)) := by
  unfold Sys.sysSemDestroy Model.semDestroy
  rw [hr.kernel]
  cases hi : m.cercaSem nSem with
  | none => exact .some ⟨rfl, hr⟩
  | some i =>
    have hused := (Kernel.cercaSem_eq_some hi).2
    dsimp only
    rw [if_neg (by simp [hused])]
    split
    next => exact .some ⟨rfl, hr⟩
    next =>
      have hlength : (m.seq (.blockedQueue i)).length < nrTasks + 1 := by
        have := List.Nodup.length_le_card (hp.nodup (.blockedQueue i))
        simp only [Fintype.card_fin] at this
        omega
      apply rel_bind_some (hr.unblockAll hp hused rfl hlength)
      intro s' hr'
      exact .some ⟨rfl, hr'.mapKernel _⟩

theorem sysSemSignal (hr : Refines s m) (h : Settled m live) (nSem : Int)
    : Option.Rel RefinesCall (s.sysSemSignal nSem) (some (m.semSignal nSem)) := by
  unfold Sys.sysSemSignal Model.semSignal
  rw [hr.kernel]
  cases hi : m.cercaSem nSem with
  | none => exact .some ⟨rfl, hr⟩
  | some i =>
    have hused := (Kernel.cercaSem_eq_some hi).2
    have hset : m.queues.shape (.blockedQueue i) ≠ .unset := by simp [h.placed.sem i hused]
    dsimp only
    rw [if_neg (by simp [hused]), hr.listEmpty_eq hset, hr.firstTask_eq hset]
    cases hseq : m.seq (.blockedQueue i) with
    | nil => exact .some ⟨rfl, hr.mapKernel _⟩
    | cons t ts =>
      have ht := h.placed.live_of_mem (.blockedQueue i) (by simp) t (by simp [hseq])
      apply rel_bind_some (hr.updateProcessStateRr_some h.placed ht h.placed.ready)
      intro s' hr'
      exact .some ⟨rfl, hr'⟩

theorem sysSemWait (hr : Refines s m) (h : Settled m live) (hidle : m.current ≠ m.idleTask)
    (nSem : Int) : Option.Rel Refines (s.sysSemWait nSem) (some (m.semWait nSem)) := by
  unfold Sys.sysSemWait Model.semWait
  rw [hr.kernel]
  cases hi : m.cercaSem nSem with
  | none => exact .some (hr.ret _)
  | some i =>
    have hused := (Kernel.cercaSem_eq_some hi).2
    have hr' := hr.mapKernel (Kernel.setSemRet m.current 0)
    have hclear := h.setSemRet m.current 0
    dsimp only
    rw [if_neg (by simp [hused]), hr'.kernel]
    split
    next =>
      apply rel_bind_some
        (hr'.exitRunCurrent hclear.placed hclear.live (h.placed.sem i hused))
      intro s'' hr''
      exact (hr''.mapKernel _).schedNextRr
        (hclear.queueWaiting hidle (Settled.waits_of_cercaSem hi))
    next => exact .some ((hr'.mapKernel _).ret _)

end Semaphores

section Exit

theorem destroyOwned (hr : Refines s m) (hp : Placed m live run)
    : Option.Rel Refines s.destroyOwned (some m.destroyOwned) := by
  unfold Sys.destroyOwned Model.destroyOwned
  induction List.finRange nrSemaphores generalizing s m with
  | nil => exact .some hr
  | cons i is ih =>
    rw [List.foldlM_cons, List.foldl_cons, hr.kernel]
    split
    next =>
      apply rel_bind_some (rel_map (hr.sysSemDestroy hp _) (fun _ _ h => h.2))
      intro s' hr'
      exact ih hr' (hp.semDestroy _)
    next => exact ih hr hp

/--
The current task is still running for `update_process_state_rr`, which therefore inserts it once more.
-/
theorem updateProcessStateRr_again (hr : Refines s m) (hrun : m.estado m.current = .stRun)
    (hlast : ∃ ts, m.seq .freequeue = ts ++ [m.current])
    (hshape : m.queues.shape .freequeue = .ring
      ∨ ∃ anchored, m.queues.shape .freequeue = .knot true anchored)
    : Option.Rel Refines (s.updateProcessStateRr m.current (some .freequeue))
        (some ((m.mapQueues (Queues.again .freequeue)).mapKernel fun k =>
          k.setTask k.current fun ts => { ts with estado := .stBlocked })) := by
  obtain ⟨ts, hlast⟩ := hlast
  unfold Sys.updateProcessStateRr
  rw [if_neg (by rw [hr.kernel]; exact not_not.mpr hrun)]
  apply rel_bind_some (hr.mapLinks (hr.links.listAddTail_again hlast hshape))
  intro s' hr'
  exact .some (hr'.mapKernel fun k => k.setTask m.current _)

theorem sysExit (hr : Refines s m) (h : Settled m live) (hidle : m.current ≠ m.idleTask)
    (hshape : m.queues.shape .freequeue = .ring
      ∨ ∃ anchored, m.queues.shape .freequeue = .knot false anchored)
    : Option.Rel Refines s.sysExit (some m.exit) := by
  obtain ⟨hcurrent, hrun, hlast, hshape'⟩ := h.destroyOwned_retired hidle
  unfold Sys.sysExit
  rw [hr.kernel]
  apply rel_bind_some ((hr.mapKernel Kernel.releaseDIR).listAddTail h.not_linked hshape)
  intro s₁ (hr₁ : Refines s₁ m.retired)
  apply rel_bind_some (hr₁.destroyOwned (h.retired hidle))
  intro s₂ hr₂
  have hr₃ := hr₂.mapKernel Kernel.clearPid
  dsimp only
  rw [hr₃.kernel]
  apply rel_bind_some
  . apply hr₃.updateProcessStateRr_again
    . simpa [Model.estado, hcurrent] using hrun
    . exact ⟨_, by simpa [hcurrent] using hlast⟩
    . rw [Model.queues_mapKernel, hshape']
      rcases hshape with hshape | ⟨anchored, hshape⟩ <;> simp [hshape, Links.Shape.append]
  . intro s₄ hr₄
    exact (hr₄.mapKernel _).schedNextRr (h.exited hidle)

end Exit

section Fork

theorem takeFree (hr : Refines s m) {ts : List Slot} (hcons : m.seq .freequeue = t :: ts)
    (htake : m.Takeable)
    : Option.Rel (fun x m' => x.1 = t ∧ Refines x.2 m') s.takeFree
        (some (m.mapQueues (Queues.remove t))) := by
  have hset : m.queues.shape .freequeue ≠ .unset := by
    rcases htake with h | ⟨h, -⟩ <;> simp [h]
  have hdel : Option.Rel Refines (s.mapLinks (listDel (.list t)))
      (some (m.mapQueues (Queues.remove t))) := by
    apply hr.mapLinks
    rcases htake with hring | ⟨hknot, hlength⟩
    . exact hr.links.listDel (by rw [Placed.seq_eq, hcons]; simp) hring
    . apply hr.links.listDel_first hcons ?_ hknot
      rintro rfl
      rw [hcons] at hlength
      simp at hlength
  unfold Sys.takeFree
  rw [hr.firstTask_eq hset, hcons]
  apply rel_bind_some hdel
  intro s' hr'
  exact .some ⟨rfl, hr'⟩

theorem copyTask (hr : Refines s m) (hfree : ¬m.queues.Linked t)
    : Refines (s.copyTask t) (m.mapKernel (Kernel.copyTask t)) := by
  constructor
  . exact (hr.mapKernel _).kernel
  . exact hr.links.copyList hfree

theorem makeReady (hr : Refines s m) (h : Settled.Taken m live t)
    : Option.Rel RefinesCall (s.makeReady t) (some (m.makeReady t)) := by
  unfold Sys.makeReady Model.makeReady
  apply rel_bind_some ((hr.mapKernel _).listAddTail h.not_linked (.inl h.settled.placed.ready))
  intro s' hr'
  apply Option.Rel.some
  refine ⟨?_, hr'⟩
  rw [hr'.kernel]

theorem sysClone (hr : Refines s m) (h : Settled m live) (function stack : Addr)
    (hset : m.queues.shape .freequeue ≠ .unset)
    (htake : m.seq .freequeue = [] ∨ m.Takeable)
    : Option.Rel RefinesCall (s.sysClone function stack) (some (m.clone function stack)) := by
  unfold Sys.sysClone Model.clone
  rw [hr.listEmpty_eq hset]
  split
  next => exact .some ⟨rfl, hr⟩
  next =>
    cases hseq : m.seq .freequeue with
    | nil => exact .some ⟨rfl, hr⟩
    | cons new ts =>
      have htaken := h.takeCopy (t := new) (by rw [hseq]; simp)
      apply rel_bind_some (hr.takeFree hseq (htake.resolve_left (by simp [hseq])))
      rintro ⟨t, s'⟩ ⟨rfl, hr'⟩
      exact ((hr'.copyTask htaken.not_linked).mapKernel _).makeReady htaken.cloneContext

theorem sysFork (hr : Refines s m) (h : Settled m live)
    (hset : m.queues.shape .freequeue ≠ .unset)
    (htake : m.seq .freequeue = [] ∨ m.Takeable)
    : Option.Rel RefinesCall s.sysFork m.fork := by
  unfold Sys.sysFork Model.fork
  rw [hr.listEmpty_eq hset]
  cases hseq : m.seq .freequeue with
  | nil => exact .some ⟨rfl, hr⟩
  | cons new ts =>
    have htaken := h.takeCopy (t := new) (by rw [hseq]; simp)
    apply rel_bind_some (hr.takeFree hseq (htake.resolve_left (by simp [hseq])))
    rintro ⟨t, s'⟩ ⟨rfl, hr'⟩
    have hr'' : Refines (Sys.copyTask t s') (m.takeCopy t) := hr'.copyTask htaken.not_linked
    dsimp only
    rw [hr''.kernel]
    cases hk : (m.takeCopy t).allocateDIR t with
    | none => exact .some ⟨rfl, hr''⟩
    | some k =>
      dsimp only
      cases hpages : k.inheritPages t with
      | none => exact .none
      | some x =>
        obtain ⟨enough, k'⟩ := x
        have htaken' := htaken.inheritPages hk hpages
        cases enough with
        | true => exact ((hr''.setKernel k').mapKernel _).makeReady htaken'.forkContext
        | false => exact .some ⟨rfl, hr''.setKernel k'⟩

end Fork

theorem resume (hr : Refines s m) (h : Settled m live)
    : Option.Rel Refines s.resume (some m.resume) := by
  unfold Sys.resume Model.resume
  rw [hr.kernel]
  cases hcont : m.cont m.current with
  | user => exact .some (hr.mapKernel _)
  | cpuIdle => exact .some (hr.mapKernel _)
  | semWait => exact .some (hr.ret _)
  | readKeyboard buff =>
    apply hr.readKeyboardBody h
    intro heq
    rw [heq] at hcont
    exact h.placed.idle_not_reading buff hcont

end Refines

end Zeos
