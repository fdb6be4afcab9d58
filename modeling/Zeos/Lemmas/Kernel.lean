import Zeos.Impl.Kernel

/-!
Fields of a PCB and of a semaphore after a conditional update.
-/

namespace Zeos

section Fields

variable (c : Prop) [Decidable c]

@[simp]
theorem estado_ite (a b : TaskStruct)
    : (if c then a else b).estado = if c then a.estado else b.estado := by
  split <;> rfl

@[simp]
theorem pid_ite (a b : TaskStruct)
    : (if c then a else b).pid = if c then a.pid else b.pid := by
  split <;> rfl

@[simp]
theorem nDirectorio_ite (a b : TaskStruct)
    : (if c then a else b).nDirectorio = if c then a.nDirectorio else b.nDirectorio := by
  split <;> rfl

@[simp]
theorem dirPagesBaseAddr_ite (a b : TaskStruct)
    : (if c then a else b).dirPagesBaseAddr =
        if c then a.dirPagesBaseAddr else b.dirPagesBaseAddr := by
  split <;> rfl

@[simp]
theorem quantum_ite (a b : TaskStruct)
    : (if c then a else b).quantum = if c then a.quantum else b.quantum := by
  split <;> rfl

@[simp]
theorem readKeys_ite (a b : TaskStruct)
    : (if c then a else b).readKeys = if c then a.readKeys else b.readKeys := by
  split <;> rfl

@[simp]
theorem requiredKeys_ite (a b : TaskStruct)
    : (if c then a else b).requiredKeys = if c then a.requiredKeys else b.requiredKeys := by
  split <;> rfl

@[simp]
theorem processBreak_ite (a b : TaskStruct)
    : (if c then a else b).processBreak = if c then a.processBreak else b.processBreak := by
  split <;> rfl

@[simp]
theorem state_ite (a b : Semaphore)
    : (if c then a else b).state = if c then a.state else b.state := by
  split <;> rfl

end Fields

def Event.OfProcess (event : Event) : Prop :=
  event ≠ .clock ∧ (∀ entrada beyond, event ≠ .keyboard entrada beyond) ∧ event ≠ .resume

def Event.ChangesTable (event : Event) : Prop :=
  event = .exit ∨ (∃ n value, event = .semInit n value) ∨ (∃ n, event = .semWait n) ∨
    (∃ n, event = .semSignal n) ∨ ∃ n, event = .semDestroy n

namespace Kernel

section Frames

variable {k k' : Kernel}

theorem allocateDIR_eq_some {p : Slot} (h : k.allocateDIR p = some k')
    : ∃ d, k.refsDIR d = 0 ∧
        k' = (k.setTask p fun ts => { ts with dirPagesBaseAddr := d, nDirectorio := d }).setRefs d
          1 := by
  obtain ⟨d, hd, rfl⟩ := Option.map_eq_some_iff.mp h
  have hzero : k.refsDIR d = 0 := by simpa using List.find?_some hd
  exact ⟨d, hzero, by rw [hzero]; rfl⟩

theorem cercaSem_eq_some {nSem : Int} {i : SemIx} (h : k.cercaSem nSem = some i)
    : (k.semaphores i).nSem = nSem ∧ (k.semaphores i).state = .usedSem := by
  have := List.find?_some h
  simpa using this

theorem cercaSemLliure_eq_some {i : SemIx} (h : k.cercaSemLliure = some i)
    : (k.semaphores i).state = .freeSem := by
  simpa using List.find?_some h

theorem inheritPages_eq_some {new : Slot} {enough : Bool} (h : k.inheritPages new = some (enough, k'))
    : ∃ mm, k' = { k with mm := mm } := by
  obtain ⟨x, -, hx⟩ := Option.map_eq_some_iff.mp h
  rw [Prod.mk.injEq] at hx
  exact ⟨x.2, hx.2.symm⟩

theorem inheritPages_of (k : Kernel) (new : Slot) (e d : DirIx) {mm : Mm} (hcr3 : k.cr3 = e)
    (hparent : (k.task k.current).dirPagesBaseAddr = e) (hnew : (k.task new).dirPagesBaseAddr = d)
    (hdata : inheritData (Mm.getPT e) (Mm.getPT d) (Mm.getPT e) numPagData []
      (inheritCode (Mm.getPT d) (Mm.getPT e) k.mm) = some (true, mm))
    : k.inheritPages new = some (true, { k with mm := mm }) := by
  subst hparent hnew
  unfold inheritPages getPT getDIR
  dsimp only
  rw [hcr3, hdata]
  rfl

theorem releaseDIR_eq (k : Kernel)
    : ∃ refs mm, k.releaseDIR = { k with refsDIR := refs, mm := mm } := by
  unfold releaseDIR
  dsimp only
  split
  next => exact ⟨_, _, rfl⟩
  next => exact ⟨_, k.mm, rfl⟩

@[simp]
theorem task_releaseDIR : k.releaseDIR.task = k.task := by
  obtain ⟨_, _, h⟩ := releaseDIR_eq k
  rw [h]

@[simp]
theorem cont_releaseDIR : k.releaseDIR.cont = k.cont := by
  obtain ⟨_, _, h⟩ := releaseDIR_eq k
  rw [h]

@[simp]
theorem current_releaseDIR : k.releaseDIR.current = k.current := by
  obtain ⟨_, _, h⟩ := releaseDIR_eq k
  rw [h]

@[simp]
theorem idleTask_releaseDIR : k.releaseDIR.idleTask = k.idleTask := by
  obtain ⟨_, _, h⟩ := releaseDIR_eq k
  rw [h]

@[simp]
theorem semaphores_releaseDIR : k.releaseDIR.semaphores = k.semaphores := by
  obtain ⟨_, _, h⟩ := releaseDIR_eq k
  rw [h]

theorem copyKey_eq (key : Byte) (dest : Addr) (k : Kernel)
    : ∃ mm copies stopped,
        k.copyKey key dest = { k with mm := mm, copies := copies, stopped := stopped } := by
  unfold copyKey
  dsimp only
  split
  next => exact ⟨_, _, _, rfl⟩
  next => exact ⟨_, _, _, rfl⟩

theorem readKeysLoop_eq (n : Nat) (buff : Addr) (k : Kernel)
    : ∃ mm keyboardBuff copies stopped,
        (k.readKeysLoop n buff).2 =
          { k with mm := mm, keyboardBuff := keyboardBuff, copies := copies, stopped := stopped } := by
  induction n generalizing buff k with
  | zero => exact ⟨_, _, _, _, rfl⟩
  | succ n ih =>
    obtain ⟨mm', copies', stopped', hcopy⟩ :=
      copyKey_eq k.keyboardBuff.cirBuffRead.1 buff { k with keyboardBuff := k.keyboardBuff.cirBuffRead.2 }
    unfold readKeysLoop
    dsimp only
    rw [hcopy]
    split
    next => exact ⟨_, _, _, _, rfl⟩
    next =>
      obtain ⟨mm, keyboardBuff, copies, stopped, h⟩ := ih (buff + 1) _
      exact ⟨mm, keyboardBuff, copies, stopped, h⟩

theorem sysSbrk_eq (incr : Int) (k : Kernel)
    : ∃ task mm cr3, (k.sysSbrk incr).2 = { k with task := task, mm := mm, cr3 := cr3 } ∧
        ∀ t, ∃ b, task t = { k.task t with processBreak := b } := by
  have hsame : ∀ t, ∃ b, k.task t = { k.task t with processBreak := b } :=
    fun t => ⟨(k.task t).processBreak, rfl⟩
  have hset : ∀ b t, ∃ b', (k.setTask k.current fun ts => { ts with processBreak := b }).task t =
      { k.task t with processBreak := b' } := by
    intro b t
    rw [setTask_task]
    split
    next => exact ⟨b, rfl⟩
    next => exact hsame t
  unfold sysSbrk
  generalize clampIncr _ incr = incr
  dsimp only
  split
  next => exact ⟨_, _, _, rfl, hsame⟩
  next =>
    split
    next =>
      split
      next => exact ⟨_, _, _, rfl, hset _⟩
      next => exact ⟨_, _, _, rfl, hsame⟩
    next =>
      split
      next =>
        generalize sbrkShrink _ _ _ _ _ = x
        split
        next => exact ⟨_, _, _, rfl, hset _⟩
        next => exact ⟨_, _, _, rfl, hset _⟩
      next => exact ⟨_, _, _, rfl, hsame⟩

theorem userStore_eq_some {a : Addr} {v : Byte} (h : k.userStore a v = some k')
    : ∃ mm, k' = { k with mm := mm } := by
  obtain ⟨mm, -, rfl⟩ := Option.map_eq_some_iff.mp h
  exact ⟨mm, rfl⟩

structure Entered (k k' : Kernel) : Prop where
  task : ∀ t, ∃ estadisticas, k'.task t = { k.task t with estadisticas := estadisticas }
  cont : ∀ t, k'.cont t = k.cont t ∨ k'.cont t = .user
  current : k'.current = k.current
  idleTask : k'.idleTask = k.idleTask
  cr3 : k'.cr3 = k.cr3
  incrementalPID : k'.incrementalPID = k.incrementalPID
  refsDIR : k'.refsDIR = k.refsDIR
  semaphores : k'.semaphores = k.semaphores
  keyboardBuff : k'.keyboardBuff = k.keyboardBuff
  copies : k'.copies = k.copies
  stopped : k'.stopped = k.stopped
  faultsStop : k'.faultsStop = k.faultsStop
  mm : k'.mm = k.mm

theorem entered_readings (r : Readings) : Entered k { k with readings := r } := by
  constructor <;> try rfl
  . intro t
    exact ⟨(k.task t).estadisticas, rfl⟩
  . intro t
    exact .inl rfl

theorem entered_enter (h : Entered k k') : Entered k k'.enter := by
  constructor
  . intro t
    obtain ⟨_, ht⟩ := h.task t
    rw [enter_task]
    split
    next => exact ⟨_, by rw [ht]⟩
    next => exact h.task t
  . exact h.cont
  . exact h.current
  . exact h.idleTask
  . exact h.cr3
  . exact h.incrementalPID
  . exact h.refsDIR
  . exact h.semaphores
  . exact h.keyboardBuff
  . exact h.copies
  . exact h.stopped
  . exact h.faultsStop
  . exact h.mm

theorem entered_setCont (h : Entered k k') (t : Slot) : Entered k (k'.setCont t .user) where
  __ := h
  cont u := by
    rw [setCont_cont]
    split
    next => exact .inr rfl
    next => exact h.cont u

theorem entry_eq_some {i : Input}
    : k.entry i = some k' ↔ k.stopped = false ∧ k.enterFor i = some k' := by
  rw [entry, Option.ite_none_left_eq_some, Bool.not_eq_true]

theorem entered_of_entry {i : Input} (h : k.entry i = some k') : Entered k k' := by
  obtain ⟨-, h⟩ := entry_eq_some.mp h
  obtain ⟨event, readings⟩ := i
  have hread := entered_readings (k := k) readings
  cases event with
  | clock =>
    obtain ⟨-, ⟨⟩⟩ := Option.ite_none_left_eq_some.mp h
    exact entered_setCont (entered_enter hread) _
  | keyboard entrada beyond =>
    obtain ⟨-, ⟨⟩⟩ := Option.ite_none_left_eq_some.mp h
    exact entered_setCont (entered_enter hread) _
  | store a v =>
    obtain ⟨-, ⟨⟩⟩ := Option.ite_none_left_eq_some.mp h
    exact hread
  | resume =>
    obtain ⟨-, ⟨⟩⟩ := Option.ite_none_right_eq_some.mp h
    exact hread
  | _ =>
    obtain ⟨-, ⟨⟩⟩ := Option.ite_none_left_eq_some.mp h
    exact entered_enter hread

theorem inKernel_of_entry {i : Input} (h : k.entry i = some k') (hevent : i.event ≠ .resume)
    : k.inKernel = false := by
  obtain ⟨-, h⟩ := entry_eq_some.mp h
  obtain ⟨event, readings⟩ := i
  cases event with
  | clock => simpa using (Option.ite_none_left_eq_some.mp h).1
  | keyboard entrada beyond => simpa using (Option.ite_none_left_eq_some.mp h).1
  | resume => exact absurd rfl hevent
  | _ => simpa using (not_or.mp (Option.ite_none_left_eq_some.mp h).1).1

theorem current_of_entry {i : Input} (h : k.entry i = some k') (hevent : i.event.OfProcess)
    : k.current ≠ k.idleTask := by
  obtain ⟨-, h⟩ := entry_eq_some.mp h
  obtain ⟨event, readings⟩ := i
  obtain ⟨hclock, hkeyboard, hresume⟩ := hevent
  cases event with
  | clock => exact absurd rfl hclock
  | keyboard entrada beyond => exact absurd rfl (hkeyboard entrada beyond)
  | resume => exact absurd rfl hresume
  | _ => exact (not_or.mp (Option.ite_none_left_eq_some.mp h).1).2

theorem qLeft_of_entry {i : Input} (h : k.entry i = some k') : k'.qLeft = k.qLeft := by
  obtain ⟨-, h⟩ := entry_eq_some.mp h
  obtain ⟨event, readings⟩ := i
  cases event with
  | resume =>
    obtain ⟨-, ⟨⟩⟩ := Option.ite_none_right_eq_some.mp h
    rfl
  | _ =>
    obtain ⟨-, ⟨⟩⟩ := Option.ite_none_left_eq_some.mp h
    rfl

end Frames

end Kernel

end Zeos
