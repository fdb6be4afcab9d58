import Zeos.Spec.Idle
import Zeos.Lemmas.Places

/-!
The idle task stays out of `readyqueue`, as long as no process takes the CPU from it.
-/

namespace Zeos

open Model

/--
The idle task is as it was, and has got the CPU only if nobody was ready.
-/
structure StepsAside (m m' : Model) : Prop where
  idleTask : m'.idleTask = m.idleTask
  estado : m'.estado m.idleTask = m.estado m.idleTask
  last : m'.current = m.current ∨ (m'.current = m.idleTask → m'.seq .readyqueue = [])

namespace StepsAside

variable {m m' m'' : Model} {live : Finset Slot} {run : Option Slot} {t : Slot} {q : Queue}

theorem refl (m : Model) : StepsAside m m :=
  ⟨rfl, rfl, .inl rfl⟩

theorem trans (h : StepsAside m m') (hcurrent : m'.current = m.current) (h' : StepsAside m' m'')
    : StepsAside m m'' := by
  constructor
  . exact h'.idleTask.trans h.idleTask
  . rw [← h.estado, ← h.idleTask]
    exact h'.estado
  . rw [← hcurrent, ← h.idleTask]
    exact h'.last

theorem mapKernel {f : Kernel → Kernel} (hidle : (f m.toKernel).idleTask = m.idleTask)
    (hest : ((f m.toKernel).task m.idleTask).estado = m.estado m.idleTask)
    (hcurrent : (f m.toKernel).current = m.current) : StepsAside m (m.mapKernel f) :=
  ⟨hidle, hest, .inl hcurrent⟩

theorem updateProcessState (ht : t ≠ m.idleTask) (dst : Option Queue)
    : StepsAside m (m.updateProcessState t dst) := by
  cases dst with
  | none =>
    constructor
    . rfl
    . simp [Model.updateProcessState, Model.estado, Ne.symm ht]
    . exact .inl rfl
  | some q =>
    constructor
    . rfl
    . simp [Model.updateProcessState, Model.estado, Ne.symm ht]
    . exact .inl rfl

theorem wake (h : Placed m live run) (hq : q ≠ .freequeue) (hne : q ≠ .readyqueue) (ht : t ∈ m.seq q)
    : StepsAside m (m.updateProcessState t (some .readyqueue)) := by
  obtain ⟨-, -, -, hidle⟩ := h.estado_of_mem_waits hq hne ht
  exact updateProcessState hidle _

theorem schedData (t : Slot) : StepsAside m (m.mapKernel (Kernel.schedData t)) := by
  apply mapKernel
  . rfl
  . simp [Model.estado]
  . rfl

theorem schedNext (h : Placed m live none) (hrun : m.estado m.idleTask = .stRun)
    : StepsAside m m.schedNext := by
  unfold Model.schedNext
  split
  next hnil =>
    constructor
    . rfl
    . rfl
    . right
      intro _
      exact hnil
  next t ts hcons =>
    have ht : t ∈ m.seq .readyqueue := by
      rw [hcons]
      exact List.mem_cons_self
    have hne : t ≠ m.idleTask := by
      intro heq
      have hready := (h.estado_of_mem_ready ht).2
      rw [heq, hrun] at hready
      cases hready
    have hmoved : StepsAside m ((m.mapKernel (Kernel.schedData t)).updateProcessState t none) := by
      apply (schedData t).trans rfl
      apply updateProcessState
      exact hne
    constructor
    . exact hmoved.idleTask
    . exact hmoved.estado
    . right
      intro heq
      exact absurd heq hne

theorem exitRunCurrent (hidle : m.current ≠ m.idleTask) (q : Queue)
    : StepsAside m (m.exitRunCurrent q) := by
  have hdata : StepsAside m (m.mapKernel Kernel.exitRunData) := by
    apply mapKernel
    . rfl
    . simp [Model.estado]
    . rfl
  apply hdata.trans rfl
  apply updateProcessState
  exact hidle

theorem needsSched : StepsAside m m.needsSched.2 := by
  unfold Model.needsSched
  split
  next => exact refl m
  next =>
    split
    next =>
      constructor
      . rfl
      . simp [Model.estado]
      . exact .inl rfl
    next => exact refl m

theorem ret (r : Int) : StepsAside m (m.ret r) :=
  mapKernel rfl rfl rfl

theorem result {x : Int × Model} (h : StepsAside m x.2) : StepsAside m (Model.result x) :=
  ⟨h.idleTask, h.estado, h.last⟩

theorem sysSbrk (incr : Int)
    : StepsAside m { m with toKernel := (m.sysSbrk incr).2 } := by
  obtain ⟨task, mm, cr3, heq, htask⟩ := Kernel.sysSbrk_eq incr m.toKernel
  obtain ⟨b, hb⟩ := htask m.idleTask
  constructor
  . show ((m.sysSbrk incr).2).idleTask = m.idleTask
    rw [heq]
  . show (((m.sysSbrk incr).2).task m.idleTask).estado = _
    rw [heq]
    have hestado := congrArg TaskStruct.estado hb
    exact hestado
  . left
    show ((m.sysSbrk incr).2).current = m.current
    rw [heq]

theorem needsSched_of_needs (h : m.needsSched.1 = true)
    : m.needsSched.2 = m ∧ m.seq .readyqueue ≠ [] ∧ m.qLeft = 0 := by
  unfold Model.needsSched at *
  split at h
  next hneeds =>
    rw [if_pos hneeds]
    exact ⟨rfl, hneeds⟩
  next =>
    split at h
    next => cases h
    next => cases h

theorem schedule (h : Settled m live) (hrun : m.estado m.idleTask = .stRun)
    (hpreempt : m.current = m.idleTask → m.qLeft = 1 → m.seq .readyqueue = [])
    : StepsAside m m.schedule := by
  have hdata : StepsAside m (m.mapKernel Kernel.updateSchedDataRr) := mapKernel rfl rfl rfl
  unfold Model.schedule
  dsimp only
  split
  next hneeds =>
    obtain ⟨heq, hready, hzero⟩ := needsSched_of_needs hneeds
    have hone : m.qLeft = 1 := by
      simp at hzero
      omega
    have hidle : m.current ≠ m.idleTask := fun hcurrent => hready (hpreempt hcurrent hone)
    rw [heq]
    have hleft : StepsAside m
        ((m.mapKernel Kernel.updateSchedDataRr).exitRunCurrent .readyqueue) := by
      apply hdata.trans rfl
      apply exitRunCurrent
      exact hidle
    apply hleft.trans rfl
    apply schedNext
    . have hdata := h.updateSchedDataRr
      exact hdata.placed.exitRunCurrent hdata.live (.inl rfl)
    . rw [hleft.idleTask, hleft.estado]
      exact hrun
  next => exact hdata.trans rfl needsSched

theorem clockRutine (h : Settled m live) (hrun : m.estado m.idleTask = .stRun)
    (hpreempt : m.current = m.idleTask → m.qLeft = 1 → m.seq .readyqueue = [])
    : StepsAside m m.clockRutine := by
  have htick : StepsAside m (m.mapKernel fun k => { k with zeosTicks := k.zeosTicks + 1 }) :=
    mapKernel rfl rfl rfl
  exact htick.trans rfl (schedule h.tick hrun hpreempt)

section Keyboard

theorem keyboardRutine (h : Settled m live) (entrada beyond : Byte)
    : StepsAside m (m.keyboardRutine entrada beyond) := by
  have hkey : StepsAside m (m.mapKernel (Kernel.keyPressed entrada beyond)) := mapKernel rfl rfl rfl
  have hplaced := (h.keyPressed entrada beyond).placed
  unfold Model.keyboardRutine
  split
  next =>
    dsimp only
    split
    next => exact hkey
    next ts rest hcons =>
      split
      next =>
        apply hkey.trans rfl
        exact wake hplaced (q := .keyboardqueue) (by simp) (by simp) (by rw [hcons]; simp)
      next => exact hkey
  next => exact refl m

theorem waitKeyboard (h : Settled m live) (hrun : m.estado m.idleTask = .stRun)
    (hidle : m.current ≠ m.idleTask) (buff : Addr) : StepsAside m (m.waitKeyboard buff) := by
  have hblock : StepsAside m ((m.mapQueues (Queues.push m.current .keyboardqueue)).mapKernel
      (Kernel.blockReading buff)) := by
    constructor
    . rfl
    . simp [Model.estado, Ne.symm hidle]
    . exact .inl rfl
  apply hblock.trans rfl
  apply schedNext (h.blockReading hidle buff)
  rw [hblock.idleTask, hblock.estado]
  exact hrun

theorem readKeysLoop (n : Nat) (buff : Addr)
    : StepsAside m { m with toKernel := (m.readKeysLoop n buff).2 } := by
  obtain ⟨mm, keyboardBuff, copies, stopped, heq⟩ := Kernel.readKeysLoop_eq n buff m.toKernel
  rw [heq]
  exact ⟨rfl, rfl, .inl rfl⟩

theorem readKeys (n : Nat) (buff : Addr) (r : Int)
    : StepsAside m { m with toKernel := (m.readKeysLoop n buff).2.addReadKeys r } ∧
        ((m.readKeysLoop n buff).2.addReadKeys r).current = m.current := by
  obtain ⟨mm, keyboardBuff, copies, stopped, heq⟩ := Kernel.readKeysLoop_eq n buff m.toKernel
  rw [heq]
  refine ⟨⟨rfl, ?_, .inl rfl⟩, rfl⟩
  simp [Model.estado]

theorem readKeyboardBody (h : Settled m live) (hrun : m.estado m.idleTask = .stRun)
    (hidle : m.current ≠ m.idleTask) (buff : Addr) : StepsAside m (m.readKeyboardBody buff) := by
  unfold Model.readKeyboardBody
  dsimp only
  split
  next =>
    split
    next => exact readKeysLoop _ _
    next =>
      obtain ⟨hkeys, hcurrent⟩ := readKeys (m := m) (m.task m.current).requiredKeys.toNat buff
        ((m.task m.current).requiredKeys - (m.task m.current).readKeys)
      exact hkeys.trans hcurrent (ret _)
  next =>
    split
    next =>
      split
      next => exact readKeysLoop _ _
      next =>
        obtain ⟨hkeys, hcurrent⟩ := readKeys (m := m) cirBufferSize buff cirBufferSize
        apply hkeys.trans hcurrent
        apply waitKeyboard (h.readKeys _ _ _)
        . have hest := hkeys.estado
          rw [← hkeys.idleTask] at hest
          rw [hest, hkeys.idleTask]
          exact hrun
        . exact Settled.readKeys_ne_idle hidle _ _ _
    next => exact waitKeyboard h hrun hidle buff

theorem read (h : Settled m live) (hrun : m.estado m.idleTask = .stRun)
    (hidle : m.current ≠ m.idleTask) (fd : Int) (buf : Addr) (count : Int)
    : StepsAside m (m.read fd buf count) := by
  have hrequire : StepsAside m (m.mapKernel (Kernel.requireKeys count)) := by
    apply mapKernel
    . rfl
    . simp [Model.estado]
    . rfl
  have hsettled := h.requireKeys count
  have hrun' : (m.mapKernel (Kernel.requireKeys count)).estado m.idleTask = .stRun :=
    hrequire.estado.trans hrun
  rcases m.read_cases fd buf count with ⟨r, heq⟩ | heq | heq
  . rw [heq]
    exact ret r
  . rw [heq]
    apply hrequire.trans rfl
    have hqueued : StepsAside (m.mapKernel (Kernel.requireKeys count))
        (((m.mapKernel (Kernel.requireKeys count)).updateProcessState m.current
          (some .keyboardqueue)).mapKernel fun k => k.setCont k.current (.readKeyboard buf)) := by
      have hmoved : StepsAside (m.mapKernel (Kernel.requireKeys count))
          ((m.mapKernel (Kernel.requireKeys count)).updateProcessState m.current
            (some .keyboardqueue)) := by
        apply updateProcessState
        exact hidle
      exact hmoved.trans rfl (mapKernel rfl rfl rfl)
    apply hqueued.trans rfl
    apply schedNext (hsettled.queueReading hidle buf)
    exact hqueued.estado.trans hrun'
  . rw [heq]
    exact hrequire.trans rfl (readKeyboardBody hsettled hrun' hidle buf)

end Keyboard

section Semaphores

theorem semInit {nSem : Int} {value : BitVec 32} {x : Int × Model} (hinit : m.semInit nSem value = some x)
    : StepsAside m x.2 := by
  unfold Model.semInit at hinit
  split at hinit
  next =>
    cases hinit
    exact refl m
  next =>
    obtain ⟨i, -, rfl⟩ := Option.map_eq_some_iff.mp hinit
    exact ⟨rfl, rfl, .inl rfl⟩

theorem setSemRet (t : Slot) (r : Int) : StepsAside m (m.mapKernel (Kernel.setSemRet t r)) := by
  apply mapKernel
  . rfl
  . simp [Model.estado]
  . rfl

theorem semWait (h : Settled m live) (hrun : m.estado m.idleTask = .stRun)
    (hidle : m.current ≠ m.idleTask) (nSem : Int) : StepsAside m (m.semWait nSem) := by
  have hclear : StepsAside m (m.mapKernel (Kernel.setSemRet m.current 0)) := setSemRet _ _
  unfold Model.semWait
  split
  next => exact ret _
  next i hi =>
    dsimp only
    split
    next =>
      have hleft : StepsAside m (((m.mapKernel (Kernel.setSemRet m.current 0)).exitRunCurrent
          (.blockedQueue i)).mapKernel fun k => k.setCont k.current .semWait) := by
        apply hclear.trans rfl
        have hqueued : StepsAside (m.mapKernel (Kernel.setSemRet m.current 0))
            ((m.mapKernel (Kernel.setSemRet m.current 0)).exitRunCurrent (.blockedQueue i)) := by
          apply exitRunCurrent
          exact hidle
        exact hqueued.trans rfl (mapKernel rfl rfl rfl)
      apply hleft.trans rfl
      apply schedNext
      . exact (h.setSemRet m.current 0).queueWaiting hidle (Settled.waits_of_cercaSem hi)
      . exact hleft.estado.trans hrun
    next => exact hclear.trans rfl ⟨rfl, rfl, .inl rfl⟩

theorem semSignal (h : Settled m live) (nSem : Int) : StepsAside m (m.semSignal nSem).2 := by
  unfold Model.semSignal
  split
  next => exact refl m
  next i hi =>
    split
    next => exact mapKernel rfl rfl rfl
    next t ts hcons =>
      exact wake h.placed (q := .blockedQueue i) (by simp) (by simp) (by rw [hcons]; simp)

theorem of_destroyed (h : Placed m live run) (hrest : Placed.Destroyed m m') : StepsAside m m' := by
  constructor
  . exact hrest.idle
  . apply hrest.estado
    intro i hi
    obtain ⟨-, -, -, hne⟩ := h.estado_of_mem_waits (by simp) (by simp) hi
    exact hne rfl
  . exact .inl hrest.current

theorem semDestroy (h : Placed m live run) (nSem : Int) : StepsAside m (m.semDestroy nSem).2 :=
  of_destroyed h (h.destroyed_semDestroy nSem)

end Semaphores

section Fork

theorem takeCopy (ht : t ≠ m.idleTask) : StepsAside m (m.takeCopy t) := by
  constructor
  . rfl
  . simp [Model.takeCopy, Model.estado, Ne.symm ht]
  . exact .inl rfl

theorem makeReady (ht : t ≠ m.idleTask) : StepsAside m (Model.makeReady t m).2 := by
  constructor
  . rfl
  . simp [Model.makeReady, Model.estado, Ne.symm ht]
  . exact .inl rfl

theorem fork (h : Settled m live) {x : Int × Model} (hfork : m.fork = some x)
    : StepsAside m x.2 := by
  unfold Model.fork at hfork
  split at hfork
  next =>
    cases hfork
    exact refl m
  next new rest hcons =>
    have hne : new ≠ m.idleTask := by
      intro heq
      apply h.placed.not_live_of_free new
      . rw [hcons]
        exact List.mem_cons_self
      . rw [heq]
        exact h.placed.idle_live
    dsimp only at hfork
    split at hfork
    next =>
      cases hfork
      exact takeCopy hne
    next k hk =>
      obtain ⟨⟨enough, k'⟩, hpages, rfl⟩ := Option.map_eq_some_iff.mp hfork
      obtain ⟨d, -, rfl⟩ := Kernel.allocateDIR_eq_some hk
      obtain ⟨mm, rfl⟩ := Kernel.inheritPages_eq_some hpages
      have hcopied : StepsAside (m.takeCopy new) { m.takeCopy new with
          toKernel := { ((m.takeCopy new).setTask new fun ts =>
            { ts with dirPagesBaseAddr := d, nDirectorio := d }).setRefs d 1 with mm := mm } } := by
        constructor
        . rfl
        . simp [Model.takeCopy, Model.estado, Ne.symm hne]
        . exact .inl rfl
      have hcopied := (takeCopy hne).trans rfl hcopied
      dsimp only
      split
      next =>
        apply hcopied.trans rfl
        have hcontext := StepsAside.mapKernel (m := { m.takeCopy new with
          toKernel := { ((m.takeCopy new).setTask new fun ts =>
            { ts with dirPagesBaseAddr := d, nDirectorio := d }).setRefs d 1 with mm := mm } })
          (f := Kernel.forkContext new) rfl rfl rfl
        exact hcontext.trans rfl (makeReady hne)
      next => exact hcopied

theorem clone (h : Settled m live) (function stack : Addr)
    : StepsAside m (m.clone function stack).2 := by
  unfold Model.clone
  split
  next => exact refl m
  next =>
    split
    next => exact refl m
    next new rest hcons =>
      have hne : new ≠ m.idleTask := by
        intro heq
        apply h.placed.not_live_of_free new
        . rw [hcons]
          exact List.mem_cons_self
        . rw [heq]
          exact h.placed.idle_live
      apply (takeCopy hne).trans rfl
      have hcontext := StepsAside.mapKernel (m := m.takeCopy new)
        (f := Kernel.cloneContext new) rfl rfl rfl
      exact hcontext.trans rfl (makeReady hne)

end Fork

theorem exit (h : Settled m live) (hrun : m.estado m.idleTask = .stRun)
    (hidle : m.current ≠ m.idleTask) : StepsAside m m.exit := by
  have hretired : StepsAside m m.retired := by
    constructor
    . simp [Model.retired]
    . simp [Model.retired, Model.estado]
    . left
      simp [Model.retired]
  obtain ⟨-, hrest⟩ := (h.retired hidle).destroyOwned
  have hcurrent : m.retired.current = m.current := by
    simp [Model.retired]
  have hdestroyed := hretired.trans hcurrent (of_destroyed (h.retired hidle) hrest)
  have hne : m.idleTask ≠ m.retired.destroyOwned.current := by
    rw [hrest.current, hcurrent]
    exact Ne.symm hidle
  have hexited : StepsAside m m.exited := by
    apply hdestroyed.trans (hrest.current.trans hcurrent)
    constructor
    . rfl
    . rw [hdestroyed.idleTask]
      simp [Model.exited, Model.estado, hne]
    . exact .inl rfl
  apply hexited.trans (hrest.current.trans hcurrent)
  apply schedNext (h.exited hidle)
  rw [hexited.idleTask, hexited.estado]
  exact hrun

theorem resume (h : Settled m live) (hrun : m.estado m.idleTask = .stRun)
    : StepsAside m m.resume := by
  unfold Model.resume
  split
  next =>
    apply mapKernel
    . rfl
    . simp [Model.estado]
    . rfl
  next => exact mapKernel rfl rfl rfl
  next => exact ret _
  next buff hbuff =>
    apply readKeyboardBody h hrun
    intro heq
    rw [heq] at hbuff
    exact h.placed.idle_not_reading buff hbuff

end StepsAside

theorem membersFrom_of_ring {h : Links ListHead} {q : Queue} (us : List Slot) {ts : List Slot} {n : Nat}
    (hr : h.Ring (.head q) ((us ++ ts).map .list)) (hn : ts.length ≤ n)
    : membersFrom h n (ts.map ListHead.list ++ [ListHead.head q]).head? = ts := by
  induction ts generalizing us n with
  | nil =>
    cases n with
    | zero => rfl
    | succ n => rfl
  | cons t ts ih =>
    cases n with
    | zero => simp at hn
    | succ n =>
      have hnext : h.next (.list t) = (ts.map ListHead.list ++ [ListHead.head q]).head? := by
        rw [List.map_append, List.map_cons] at hr
        exact hr.next_mem
      have hrest : membersFrom h n (h.next (.list t)) = ts := by
        rw [hnext]
        apply ih (us ++ [t])
        . simpa using hr
        . simpa using hn
      exact congrArg (t :: ·) hrest

theorem Sys.members_of_lists {s : Sys} {q : Queue} {ts : List Slot} (h : s.Lists q ts)
    : s.members q = ts := by
  have hnodup : ts.Nodup := (Links.Ring.nodup h).of_map
  have hlength : ts.length ≤ nrTasks := by
    have hcard := hnodup.length_le_card
    rwa [Fintype.card_fin] at hcard
  have hnext : s.links.next (.head q) = (ts.map ListHead.list ++ [ListHead.head q]).head? := by
    rw [Links.Ring.next_head h]
    cases ts with
    | nil => rfl
    | cons t ts => rfl
  unfold Sys.members
  rw [hnext]
  exact membersFrom_of_ring [] h hlength

theorem Refines.members_eq {s : Sys} {m : Model} (hr : Refines s m) {q : Queue}
    (hring : m.queues.shape q = .ring) : s.members q = m.seq q :=
  Sys.members_of_lists (hr.lists hring)

namespace StepsAside

variable {m m' : Model} {live : Finset Slot}

theorem routine (h : Settled m live) (hrun : m.estado m.idleTask = .stRun) {event : Event}
    (hidle : event.OfProcess → m.current ≠ m.idleTask)
    (hpreempt : event = .clock → m.current = m.idleTask → m.qLeft = 1 → m.seq .readyqueue = [])
    (hm' : Model.routine event m = some m') : StepsAside m m' := by
  cases event with
  | fork =>
    obtain ⟨x, hx, rfl⟩ := Option.map_eq_some_iff.mp hm'
    exact result (fork h hx)
  | clone function stack =>
    cases hm'
    exact result (clone h function stack)
  | exit =>
    cases hm'
    exact exit h hrun (hidle (by simp [Event.OfProcess]))
  | semInit nSem value =>
    obtain ⟨x, hx, rfl⟩ := Option.map_eq_some_iff.mp hm'
    exact result (semInit hx)
  | semWait nSem =>
    cases hm'
    exact semWait h hrun (hidle (by simp [Event.OfProcess])) nSem
  | semSignal nSem =>
    cases hm'
    exact result (semSignal h nSem)
  | semDestroy nSem =>
    cases hm'
    exact result (semDestroy h.placed nSem)
  | read fd buf count =>
    cases hm'
    exact read h hrun (hidle (by simp [Event.OfProcess])) fd buf count
  | sbrk incr =>
    cases hm'
    exact result (x := ((m.sysSbrk incr).1, { m with toKernel := (m.sysSbrk incr).2 })) (sysSbrk incr)
  | clock =>
    cases hm'
    exact clockRutine h hrun (hpreempt rfl)
  | keyboard entrada beyond =>
    cases hm'
    exact keyboardRutine h entrada beyond
  | store a v =>
    obtain ⟨k, hk, rfl⟩ := Option.map_eq_some_iff.mp hm'
    obtain ⟨mm, rfl⟩ := Kernel.userStore_eq_some hk
    exact ⟨rfl, rfl, .inl rfl⟩
  | resume =>
    cases hm'
    exact resume h hrun

theorem step (h : Settled m live) (hrun : m.estado m.idleTask = .stRun) {i : Input}
    (hpreempt : i.event = .clock → m.current = m.idleTask → m.qLeft = 1 → m.seq .readyqueue = [])
    (hstep : m.step i = some m') : StepsAside m m' := by
  obtain ⟨k, hk, hm'⟩ := step_eq_some hstep
  have hentered := Kernel.entered_of_entry hk
  have hentry : StepsAside m { m with toKernel := k } := by
    obtain ⟨_, hidle⟩ := hentered.task m.idleTask
    constructor
    . exact hentered.idleTask
    . have hestado := congrArg TaskStruct.estado hidle
      exact hestado
    . exact .inl hentered.current
  apply hentry.trans hentered.current
  apply routine (h.entry hk) _ (idle_of_entry hk) _ hm'
  . rw [hentry.idleTask, hentry.estado]
    exact hrun
  . intro hclock
    have hleft := Kernel.qLeft_of_entry hk
    show k.current = k.idleTask → k.qLeft = 1 → m.seq .readyqueue = []
    rw [hentered.current, hentered.idleTask, hleft]
    exact hpreempt hclock

end StepsAside

structure Idling (x : Sys × Finset Slot × Bool) (m : Model) : Prop where
  follows : Follows (x.1, x.2.1) m
  running : m.estado m.idleTask = .stRun
  empty : x.2.2 = true → m.seq .readyqueue = []

namespace Idling

variable {x y : Sys × Finset Slot × Bool} {m : Model}

theorem idleApart (h : Idling x m) : IdleApart x := by
  have hplaced := h.follows.settled.placed
  constructor
  . unfold Sys.IsReady
    rw [h.follows.refines.members_eq hplaced.ready, h.follows.refines.kernel]
    intro hready
    have hest := (hplaced.estado_of_mem_ready hready).2
    rw [h.running] at hest
    cases hest
  . intro hlast
    rw [h.follows.refines.listEmpty_eq (by simp [hplaced.ready]), h.empty hlast]
    rfl
  . intro hlast t ht hest
    rw [h.follows.refines.kernel] at hest
    have hready := hplaced.of_stReady t ht hest
    rw [h.empty hlast] at hready
    cases hready

theorem step (h : Idling x m) {i : Input} (hsound : Sys.TakesSound i (x.1, x.2.1))
    (hpreempt : ¬Sys.PreemptsIdle i x.1) (hstep : Sys.stepIdle i x = some y)
    : ∃ m', Idling y m' := by
  have hlive : Sys.stepLive i (x.1, x.2.1) = some (y.1, y.2.1) :=
    Run.ghost_map Prod.fst (fun _ _ _ _ => rfl) hstep
  obtain ⟨-, hrecord⟩ := Run.ghost_eq_some.mp hstep
  obtain ⟨m', hm', hfollows⟩ := h.follows.step hsound hlive
  have hplaced := h.follows.settled.placed
  have haside : StepsAside m m' := by
    apply StepsAside.step h.follows.settled h.running _ hm'
    intro hclock hidle hleft
    by_contra hready
    have hkernel : x.1.toKernel = m.toKernel := h.follows.refines.kernel
    apply hpreempt
    refine ⟨hclock, by rw [hkernel]; exact hidle, by rw [hkernel]; exact hleft, ?_⟩
    rw [h.follows.refines.listEmpty_eq (by simp [hplaced.ready])]
    simpa using hready
  refine ⟨m', hfollows, ?_, ?_⟩
  . rw [haside.idleTask, haside.estado]
    exact h.running
  . intro hlast
    rw [hrecord, h.follows.refines.kernel, hfollows.refines.kernel] at hlast
    simp only [decide_eq_true_eq, haside.idleTask] at hlast
    rcases haside.last with hcurrent | hempty
    . exact absurd (hcurrent.symm.trans hlast.2) hlast.1
    . exact hempty hlast.2

end Idling

/--
In every run, as long as the quantum of the idle task does not end while a task is ready, and no fork or
clone takes a PCB that is linked to itself.
-/
theorem always_idleApart {frames : Nat → Nat → Byte} {s : Sys} (hs : boot frames = some s)
    {es : List Input}
    (hok : Run.Allowed Sys.stepIdle
      (fun i x => Sys.TakesSound i (x.1, x.2.1) ∧ ¬Sys.PreemptsIdle i x.1) es (s, liveBoot, false))
    : Run.Always Sys.stepIdle IdleApart es (s, liveBoot, false) := by
  have hinv : Run.Always Sys.stepIdle (fun x => ∃ m, Idling x m) es (s, liveBoot, false) := by
    apply Run.always_of_step _ _ hok
    . rintro i x y ⟨m, hm⟩ ⟨hsound, hpreempt⟩ hstep
      exact hm.step hsound hpreempt hstep
    . exact ⟨_, .boot hs, estado_boot frames _, fun hlast => by cases hlast⟩
  apply hinv.mono
  rintro x ⟨m, hm⟩
  exact hm.idleApart

theorem always_idleApart_of_key
    : ∃ s, boot (fun _ _ => 0) = some s ∧
        Run.Always Sys.stepIdle IdleApart
          (atRest (resumed [.read 0 0x108000 1, .clock, .keyboard 0x1E 0, .clock]))
          (s, liveBoot, false) := by
  have hok : ∀ s ∈ boot fun _ _ => 0, Run.Allowed Sys.stepIdle
      (fun i x => Sys.TakesSound i (x.1, x.2.1) ∧ ¬Sys.PreemptsIdle i x.1)
      (atRest (resumed [.read 0 0x108000 1, .clock, .keyboard 0x1E 0, .clock]))
      (s, liveBoot, false) := by
    decide +kernel
  obtain ⟨s, hs⟩ := exists_boot fun _ _ => 0
  exact ⟨s, hs, always_idleApart hs (hok s hs)⟩

/--
The quantum of the idle task ends after the key has made the first process ready.
-/
theorem not_idleApart_of_key
    : ∃ s, boot (fun _ _ => 0) = some s ∧
        ¬Run.Always Sys.stepIdle IdleApart
          (atRest (resumed ([.read 0 0x108000 1, .keyboard 0x1E 0] ++ List.replicate 15 .clock)))
          (s, liveBoot, false) := by
  have hnot : ∀ s ∈ boot fun _ _ => 0, ¬Run.Always Sys.stepIdle IdleApart
      (atRest (resumed ([.read 0 0x108000 1, .keyboard 0x1E 0] ++ List.replicate 15 .clock)))
      (s, liveBoot, false) := by
    decide +kernel
  obtain ⟨s, hs⟩ := exists_boot fun _ _ => 0
  exact ⟨s, hs, hnot s hs⟩

end Zeos
