import Zeos.Spec.Switch
import Zeos.Lemmas.Machine

/-!
A call of `task_switch` leaves its frame, and that of `inner_task_switch`, on the stack of its task. The frames
stay there until the task is switched to.
-/

namespace Zeos

open Descending

namespace Machine

variable {labels : Labels} {m m' : Machine} {b t ret : Word} {i n : Nat} {x : Leftovers} {c : SwitchCall}

section SaveContext

variable (hb : Aligned b) (h : m.esp = wordAt b n) (hn : n < kernelStackSize)
include hb h hn

theorem mem_saveContext (ht : Aligned t) (hi : i < kernelStackSize)
    (hout : t = b → i < taskStructWords ∨ n ≤ i) (u : Word)
    : (m.saveContext x u).mem (wordAt t i) =
        if t = b ∧ i = 2 then m.regs.ebp else m.mem (wordAt t i) := by
  have hstore : m.saveContext x u =
      (insideC x { m with esp0 := kernelEsp u, msr175 := kernelEsp u, cr3 := m.mem (dirField u) }).store
        (kernelEspField m.current) m.regs.ebp := rfl
  unfold kernelEspField at hstore
  rw [hstore, current_eq hb h hn, mem_store hb ht hi (by decide)]
  split
  next => rfl
  next => exact mem_leaveBelow hb ht h hn hi hout

end SaveContext

/--
The frames of the call `c` on the stack of the task at `t`, from word `n` on, as `inner_task_switch` and
`task_switch` have left them.
-/
structure Parked (labels : Labels) (c : SwitchCall) (t : Word) (n : Nat) (m : Machine) : Prop where
  room : taskStructWords ≤ n
  inside : n + 8 < kernelStackSize
  esp : c.esp = wordAt t (n + 8)
  kernelEsp : m.mem (kernelEspField t) = wordAt t n
  link : m.mem (wordAt t n) = wordAt t (n + 6)
  inner : m.mem (wordAt t (n + 1)) = labels.afterInner
  ebx : m.mem (wordAt t (n + 3)) = c.ebx
  edi : m.mem (wordAt t (n + 4)) = c.edi
  esi : m.mem (wordAt t (n + 5)) = c.esi
  ebp : m.mem (wordAt t (n + 6)) = c.ebp
  ret : m.mem (wordAt t (n + 7)) = c.ret
  words : ∀ i, n + 8 ≤ i → i < kernelStackSize → m.mem (wordAt t i) = c.words i

theorem Parked.congr (h : Parked labels c t n m)
    (hesp : m'.mem (kernelEspField t) = m.mem (kernelEspField t))
    (hmem : ∀ i, taskStructWords ≤ i → i < kernelStackSize → m'.mem (wordAt t i) = m.mem (wordAt t i))
    : Parked labels c t n m' := by
  have hroom := h.room
  have hinside := h.inside
  constructor
  . exact hroom
  . exact hinside
  . exact h.esp
  . rw [hesp, h.kernelEsp]
  . rw [hmem _ (by omega) (by omega), h.link]
  . rw [hmem _ (by omega) (by omega), h.inner]
  . rw [hmem _ (by omega) (by omega), h.ebx]
  . rw [hmem _ (by omega) (by omega), h.edi]
  . rw [hmem _ (by omega) (by omega), h.esi]
  . rw [hmem _ (by omega) (by omega), h.ebp]
  . rw [hmem _ (by omega) (by omega), h.ret]
  . intro i hle hlt
    rw [hmem i (by omega) hlt, h.words i hle hlt]

theorem setEsp_eq (hesp : b = wordAt t n) (m : Machine)
    : m.setEsp b =
        { m with
          esp := wordAt t (n + 2)
          eip := m.mem (wordAt t (n + 1))
          regs := { m.regs with ebp := m.mem (wordAt t n) } } := by
  subst hesp
  simp [setEsp, popl, Machine.ret, wordAt_succ]

theorem taskSwitchExit_eq (hesp : m.esp = wordAt t (n + 2)) (hebp : m.regs.ebp = wordAt t (n + 6))
    : m.taskSwitchExit =
        { m with
          esp := wordAt t (n + 8)
          eip := m.mem (wordAt t (n + 7))
          regs := { m.regs with
                    ebx := m.mem (wordAt t (n + 3)), edi := m.mem (wordAt t (n + 4)),
                    esi := m.mem (wordAt t (n + 5)), ebp := m.mem (wordAt t (n + 6)) } } := by
  simp [taskSwitchExit, popl, Machine.ret, hesp, hebp, wordAt_succ]

theorem Parked.comesBack (h : Parked labels c t n m) (ht : Aligned t)
    : (m.setEsp (m.mem (kernelEspField t))).eip = labels.afterInner ∧
        (m.setEsp (m.mem (kernelEspField t))).taskSwitchExit.ComesBack c t := by
  have hinside := h.inside
  rw [setEsp_eq h.kernelEsp]
  refine ⟨h.inner, ?_⟩
  rw [taskSwitchExit_eq rfl h.link]
  refine ⟨h.ret, h.esp.symm, h.ebp, h.ebx, h.esi, h.edi, ?_⟩
  intro i hi hle
  rw [h.esp, ht.toNat_wordAt hinside, ht.toNat_wordAt hi] at hle
  exact h.words i (by omega) hi

section Call

def switchFrame (labels : Labels) (ret : Word) (m : Machine) : Machine :=
  let m := (m.push ret).taskSwitchEntry labels
  (m.push m.regs.ebp).movEspEbp

theorem taskSwitch_push
    : (m.push ret).taskSwitch labels x =
        let m₁ := m.switchFrame labels ret
        let u := m₁.mem (m₁.regs.ebp + 8)
        let m₂ := (m₁.saveContext x u).setEsp ((m₁.saveContext x u).mem (kernelEspField u))
        if m₂.eip = labels.afterInner then m₂.taskSwitchExit else m₂ := by
  rfl

variable (hb : Aligned b) (h : m.esp = wordAt b (n + 8)) (hn : n + 8 < kernelStackSize)
include hb h hn

theorem toStack_switchFrame
    : (m.switchFrame labels ret).toStack =
        m.toStack.pushes [ret, m.regs.ebp, m.regs.esi, m.regs.edi, m.regs.ebx, m.mem m.esp,
          labels.afterInner, wordAt b (n + 6)] := by
  have hlt : n + 8 < 1024 := hn
  have hesp : m.esp - 4 - 4 = wordAt b (n + 6) := by
    rw [h, wordAt_sub, wordAt_sub]
  have harg : ((m.toStack.push ret).push m.regs.ebp).mem (wordAt b (n + 6) + 8) = m.mem m.esp := by
    rw [show wordAt b (n + 6) + 8 = wordAt b (n + 8) from wordAt_add_two b (n + 6),
      Stack.mem_push hb hb (Stack.esp_push h) (by omega) hn, if_neg (by omega),
      Stack.mem_push hb hb h (by omega) hn, if_neg (by omega), h]
  rw [← harg, ← hesp]
  rfl

theorem switchFrame_frame (labels : Labels) (ret : Word)
    : (m.switchFrame labels ret).esp = wordAt b n ∧ (m.switchFrame labels ret).regs.ebp = wordAt b n := by
  have hesp : (m.switchFrame labels ret).esp = wordAt b n := by
    rw [toStack_switchFrame hb h hn]
    exact Stack.esp_pushes h
  exact ⟨hesp, hesp⟩

theorem mem_switchFrame (ht : Aligned t) (hi : i < kernelStackSize) (hout : t = b → i < n ∨ n + 8 ≤ i)
    : (m.switchFrame labels ret).mem (wordAt t i) = m.mem (wordAt t i) := by
  rw [toStack_switchFrame hb h hn]
  exact Stack.mem_pushes_of_outside hb ht h hn.le hi hout

theorem mem_switchFrame_frame {v : Word}
    (hi : [wordAt b (n + 6), labels.afterInner, m.mem m.esp, m.regs.ebx, m.regs.edi, m.regs.esi,
      m.regs.ebp, ret][i]? = some v)
    : (m.switchFrame labels ret).mem (wordAt b (n + i)) = v := by
  rw [toStack_switchFrame hb h hn]
  exact Stack.mem_pushes hb h hn.le hi

theorem parked_switchFrame (hroom : taskStructWords ≤ n) (u : Word)
    : Parked labels (m.switchCall ret) b n ((m.switchFrame labels ret).saveContext x u) := by
  have hlt : n + 8 < 1024 := hn
  obtain ⟨hesp, hebp⟩ := switchFrame_frame hb h hn labels ret
  have hsave : ∀ i < kernelStackSize, n ≤ i →
      ((m.switchFrame labels ret).saveContext x u).mem (wordAt b i) =
        (m.switchFrame labels ret).mem (wordAt b i) := by
    intro i hi hle
    rw [mem_saveContext hb hesp (by omega) hb hi (fun _ => .inr hle), if_neg]
    rintro ⟨-, rfl⟩
    unfold taskStructWords at hroom
    omega
  have hframe : ∀ i v, i < 8 → [wordAt b (n + 6), labels.afterInner, m.mem m.esp, m.regs.ebx,
      m.regs.edi, m.regs.esi, m.regs.ebp, ret][i]? = some v →
        ((m.switchFrame labels ret).saveContext x u).mem (wordAt b (n + i)) = v := by
    intro i v hi hv
    rw [hsave _ (by omega) (by omega), mem_switchFrame_frame hb h hn hv]
  constructor
  . exact hroom
  . exact hn
  . exact h
  . unfold kernelEspField
    rw [mem_saveContext hb hesp (by omega) hb (by decide) (fun _ => .inl (by decide)), if_pos ⟨rfl, rfl⟩,
      hebp]
  . exact hframe 0 _ (by omega) rfl
  . exact hframe 1 _ (by omega) rfl
  . exact hframe 3 _ (by omega) rfl
  . exact hframe 4 _ (by omega) rfl
  . exact hframe 5 _ (by omega) rfl
  . exact hframe 6 _ (by omega) rfl
  . exact hframe 7 _ (by omega) rfl
  . intro i hle hi
    rw [hsave i hi (by omega), mem_switchFrame hb h hn hb hi (fun _ => .inr hle)]
    show _ = m.mem (wordAt m.current i)
    rw [current_eq hb h hn]

theorem Parked.switchFrame {k : Nat} (hparked : Parked labels c t k m) (ht : Aligned t) (hne : t ≠ b)
    (u : Word) : Parked labels c t k ((m.switchFrame labels ret).saveContext x u) := by
  obtain ⟨hesp, -⟩ := switchFrame_frame hb h hn labels ret
  have hmem : ∀ i < kernelStackSize,
      ((m.switchFrame labels ret).saveContext x u).mem (wordAt t i) = m.mem (wordAt t i) := by
    intro i hi
    rw [mem_saveContext hb hesp (by omega) ht hi (fun heq => absurd heq hne),
      if_neg (fun heq => hne heq.1), mem_switchFrame hb h hn ht hi (fun heq => absurd heq hne)]
  exact hparked.congr (hmem 2 (by decide)) fun i _ hi => hmem i hi

theorem arg_switchFrame
    : (m.switchFrame labels ret).mem ((m.switchFrame labels ret).regs.ebp + 8) = m.mem m.esp := by
  rw [(switchFrame_frame hb h hn labels ret).2, show wordAt b n + 8 = wordAt b (n + 2) from wordAt_add_two b n]
  exact mem_switchFrame_frame hb h hn rfl

theorem taskSwitch_eq (harg : m.mem m.esp = t)
    : (m.push ret).taskSwitch labels x =
        let m₁ := (m.switchFrame labels ret).saveContext x t
        let m₂ := m₁.setEsp (m₁.mem (kernelEspField t))
        if m₂.eip = labels.afterInner then m₂.taskSwitchExit else m₂ := by
  rw [taskSwitch_push]
  dsimp only
  rw [arg_switchFrame hb h hn, harg]

theorem runs_taskSwitch (ht : Aligned t) (harg : m.mem m.esp = t) (labels : Labels) (ret : Word)
    (x : Leftovers) : ((m.push ret).taskSwitch labels x).Runs t := by
  have hesp := (switchFrame_frame hb h hn labels ret).1
  have hsaved : ((m.switchFrame labels ret).saveContext x t).Runs t := by
    refine ⟨rfl, rfl, ?_⟩
    unfold dirField
    rw [mem_saveContext hb hesp (by omega) ht (by decide) (fun _ => .inl (by decide)), if_neg (by omega)]
    rfl
  rw [taskSwitch_eq hb h hn harg]
  dsimp only
  split
  next => exact ⟨hsaved.esp0, hsaved.msr175, hsaved.cr3⟩
  next => exact ⟨hsaved.esp0, hsaved.msr175, hsaved.cr3⟩

theorem mem_taskSwitch (harg : m.mem m.esp = t) (labels : Labels) (ret : Word) (x : Leftovers)
    : ((m.push ret).taskSwitch labels x).mem = ((m.switchFrame labels ret).saveContext x t).mem := by
  rw [taskSwitch_eq hb h hn harg]
  dsimp only
  split
  next => rfl
  next => rfl

theorem comesBack_taskSwitch (ht : Aligned t) (harg : m.mem m.esp = t) {k : Nat}
    (hparked : Parked labels c t k ((m.switchFrame labels ret).saveContext x t))
    : ((m.push ret).taskSwitch labels x).ComesBack c t := by
  obtain ⟨heip, hback⟩ := hparked.comesBack ht
  rw [taskSwitch_eq hb h hn harg]
  dsimp only
  rw [if_pos heip]
  exact hback

end Call

/--
On the stacks, a switch to a task that has switched away is what `Kernel.taskSwitch` says.
-/
theorem Represents.taskSwitch {tasks : TaskArray Slot} {dirs : DirIx → Word} {k : Kernel} {u : Slot}
    {j : Nat} (h : m.Represents tasks dirs k) (hesp : m.esp = wordAt (tasks.addr k.current) (n + 8))
    (hroom : taskStructWords ≤ n) (hn : n + 8 < kernelStackSize) (harg : m.mem m.esp = tasks.addr u)
    (hparked : Parked labels c (tasks.addr u) j
      ((m.switchFrame labels ret).saveContext x (tasks.addr u)))
    : ((m.push ret).taskSwitch labels x).Represents tasks dirs (k.taskSwitch u) := by
  have hb := tasks.aligned k.current
  have hu := tasks.aligned u
  have hback := comesBack_taskSwitch hb hesp hn hu harg hparked
  have hruns := runs_taskSwitch hb hesp hn hu harg labels ret x
  have hmem := mem_taskSwitch hb hesp hn harg labels ret x
  have hdir : ∀ t, ((m.push ret).taskSwitch labels x).mem (dirField (tasks.addr t)) =
      dirs (k.getDIR t) := by
    intro t
    have hframe := (switchFrame_frame hb hesp hn labels ret).1
    rw [hmem, ← h.dir t]
    unfold dirField
    rw [mem_saveContext hb hframe (by omega) (tasks.aligned t) (by decide) (fun _ => .inl (by decide)),
      if_neg (by omega), mem_switchFrame hb hesp hn (tasks.aligned t) (by decide)]
    exact fun _ => .inl (by unfold taskStructWords at hroom; omega)
  refine ⟨?_, ?_, hdir⟩
  . unfold Machine.current
    rw [hback.esp, hparked.esp]
    exact hu.page_wordAt hparked.inside
  . rw [hruns.cr3, hdir u]
    rfl

end Machine

namespace Switching

variable {ι : Type} [DecidableEq ι] {labels : Labels} {tasks : TaskArray ι} {s s' : Switching ι}

structure Inv (labels : Labels) (tasks : TaskArray ι) (s : Switching ι) : Prop where
  running : s.waiting s.running = none
  parked : ∀ t, ∀ c ∈ s.waiting t, ∃ n, Machine.Parked labels c (tasks.addr t) n s.machine

theorem Inv.compute (h : Inv labels tasks s) {m : Machine} {anew : ι → Bool}
    (hok : Disciplined tasks (.compute m anew) s) (hstep : step labels (.compute m anew) s = some s')
    : Inv labels tasks s' := by
  cases hstep
  constructor
  . show (if anew s.running then none else s.waiting s.running) = none
    rw [h.running, ite_self]
  . intro t c hc
    change c ∈ if anew t then none else s.waiting t at hc
    split at hc
    next => cases hc
    next hanew =>
      obtain ⟨n, hparked⟩ := h.parked t c hc
      have hne : t ≠ s.running := by
        rintro rfl
        rw [h.running] at hc
        cases hc
      obtain ⟨hesp, hmem⟩ := hok t hne (by simpa using hanew)
      exact ⟨n, hparked.congr hesp hmem⟩

theorem Inv.switch (h : Inv labels tasks s) {t : ι} {ret : Word} {x : Leftovers}
    (hok : Disciplined tasks (.switch t ret x) s) (hstep : step labels (.switch t ret x) s = some s')
    : Inv labels tasks s' ∧ SwitchesBack tasks s' := by
  obtain ⟨harg, n, hroom, hn, hesp⟩ := hok
  have hb := tasks.aligned s.running
  have ht := tasks.aligned t
  -- the call that is being made is one of those that wait from now on, also for a switch to itself
  have hparked : ∀ u, ∀ c ∈ Function.update s.waiting s.running (some (s.machine.switchCall ret)) u,
      ∃ n, Machine.Parked labels c (tasks.addr u) n
        ((s.machine.switchFrame labels ret).saveContext x (tasks.addr t)) := by
    intro u c hc
    by_cases hu : u = s.running
    . subst hu
      rw [Function.update_self] at hc
      cases hc
      exact ⟨n, Machine.parked_switchFrame hb hesp hn hroom _⟩
    . rw [Function.update_of_ne hu] at hc
      obtain ⟨k, hparked⟩ := h.parked u c hc
      have hne : tasks.addr u ≠ tasks.addr s.running := fun heq => hu (tasks.injective heq)
      exact ⟨k, hparked.switchFrame hb hesp hn (tasks.aligned u) hne _⟩
  have hruns := Machine.runs_taskSwitch hb hesp hn ht harg labels ret x
  have hmem := Machine.mem_taskSwitch hb hesp hn harg labels ret x
  have hback : ∀ c ∈ Function.update s.waiting s.running (some (s.machine.switchCall ret)) t,
      ((s.machine.push ret).taskSwitch labels x).ComesBack c (tasks.addr t) := by
    intro c hc
    obtain ⟨k, hk⟩ := hparked t c hc
    exact Machine.comesBack_taskSwitch hb hesp hn ht harg hk
  unfold step at hstep
  dsimp only at hstep
  generalize (s.machine.push ret).taskSwitch labels x = m' at hruns hmem hback hstep
  cases hstep
  refine ⟨⟨Function.update_self .., ?_⟩, fun _ => ⟨hruns, hback⟩⟩
  intro u c hc
  dsimp only at hc
  by_cases hu : u = t
  . rw [hu, Function.update_self] at hc
    cases hc
  . rw [Function.update_of_ne hu] at hc
    obtain ⟨k, hk⟩ := hparked u c hc
    exact ⟨k, hk.congr (congrFun hmem _) fun i _ _ => congrFun hmem _⟩

/--
Whatever the order of the switches, a call of `task_switch` comes back when its task is switched to again.
-/
theorem always_switchesBack {es : List (SwitchEvent ι)} {m : Machine} {t : ι}
    (hrun : Run.Allowed (step labels) (Disciplined tasks) es (start m t))
    : Run.Always (step labels) (SwitchesBack tasks) es (start m t) := by
  have hinv : Run.Always (step labels) (fun s => Inv labels tasks s ∧ SwitchesBack tasks s) es
      (start m t) := by
    apply Run.always_of_step _ _ hrun
    . rintro (⟨m, anew⟩ | ⟨t, ret, x⟩) s s' ⟨h, -⟩ hok hstep
      . refine ⟨h.compute hok hstep, ?_⟩
        cases hstep
        nofun
      . exact h.switch hok hstep
    . exact ⟨⟨rfl, nofun⟩, nofun⟩
  exact hinv.mono fun _ h => h.2

section Witness

variable {t u : ι} {m : Machine}

def atCall (tasks : TaskArray ι) (t u : ι) (m : Machine) : Machine :=
  { m with
    esp := wordAt (tasks.addr t) 1000
    mem := Function.update m.mem (wordAt (tasks.addr t) 1000) (tasks.addr u) }

omit [DecidableEq ι] in
theorem machine_start (m : Machine) (t : ι) : (start m t).machine = m :=
  rfl

omit [DecidableEq ι] in
theorem mem_atCall (a : Word)
    : (atCall tasks t u m).mem a = if a = wordAt (tasks.addr t) 1000 then tasks.addr u else m.mem a := by
  unfold atCall
  dsimp only
  rw [Function.update_apply]

omit [DecidableEq ι] in
theorem disciplined_switch (hs : s.machine = atCall tasks t u m) (hrunning : s.running = t) (ret : Word)
    (x : Leftovers) : Disciplined tasks (.switch u ret x) s := by
  have hesp : (atCall tasks t u m).esp = wordAt (tasks.addr t) (992 + 8) := rfl
  unfold Disciplined
  dsimp only
  rw [hs, hrunning]
  refine ⟨?_, 992, by decide, by decide, hesp⟩
  rw [hesp, mem_atCall, if_pos rfl]

omit [DecidableEq ι] in
theorem disciplined_compute (hrunning : s.running = t) (anew : ι → Bool)
    : Disciplined tasks (.compute (atCall tasks t u s.machine) anew) s := by
  intro v hne _
  have hkept : ∀ i < kernelStackSize, (atCall tasks t u s.machine).mem (wordAt (tasks.addr v) i) =
      s.machine.mem (wordAt (tasks.addr v) i) := by
    intro i hi
    rw [mem_atCall, if_neg]
    rw [wordAt_inj (tasks.aligned v) (tasks.aligned t) hi (by decide)]
    rintro ⟨heq, -⟩
    exact hne ((tasks.injective heq).trans hrunning.symm)
  exact ⟨hkept 2 (by decide), fun i _ hi => hkept i hi⟩

def backAndForth (labels : Labels) (tasks : TaskArray ι) (t u : ι) (ret : Word) (x : Leftovers)
    (m : Machine) : List (SwitchEvent ι) :=
  [.switch u ret x,
    .compute (atCall tasks u t (((atCall tasks t u m).push ret).taskSwitch labels x)) fun _ => false,
    .switch t ret x]

theorem allowed_backAndForth (labels : Labels) (tasks : TaskArray ι) (t u : ι) (ret : Word)
    (x : Leftovers) (m : Machine)
    : Run.Allowed (step labels) (Disciplined tasks) (backAndForth labels tasks t u ret x m)
        (start (atCall tasks t u m) t) := by
  unfold backAndForth
  constructor
  . exact disciplined_switch (machine_start _ _) rfl ret x
  intro s hs
  simp only [step, start, Option.some.injEq] at hs
  have hmachine : s.machine = ((atCall tasks t u m).push ret).taskSwitch labels x := by
    rw [← hs]
  have hrunning : s.running = u := by
    rw [← hs]
  rw [← hmachine]
  constructor
  . exact disciplined_compute hrunning _
  intro s' hs'
  simp only [step, Option.some.injEq] at hs'
  have hmachine' : s'.machine = atCall tasks u t s.machine := by
    rw [← hs']
  have hrunning' : s'.running = u := by
    rw [← hs', ← hrunning]
  exact ⟨disciplined_switch hmachine' hrunning' ret x, fun _ _ => trivial⟩

def someTasks : TaskArray Slot :=
  taskArray 0x50000 (by decide)

def someLabels : Labels :=
  { afterInner := 0x10100, retFromFork := 0x10200, afterCall := 0x10300, afterCallSysenter := 0x10400 }

def zeroMachine : Machine where
  esp := 0
  mem _ := 0
  regs := { eax := 0, ebx := 0, ecx := 0, edx := 0, esi := 0, edi := 0, ebp := 0 }
  eip := 0
  eflags := 0
  cs := 0
  ds := 0
  es := 0
  fs := 0
  gs := 0
  ss := 0
  esp0 := 0
  msr175 := 0
  cr3 := 0

def zeroLeftovers : Leftovers :=
  { eax := 0, ebx := 0, ecx := 0, edx := 0, esi := 0, edi := 0, eflags := 0, below := fun _ => 0 }

theorem always_switchesBack_backAndForth
    : Run.Always (step someLabels) (SwitchesBack someTasks)
        (backAndForth someLabels someTasks 0 1 0x10500 zeroLeftovers zeroMachine)
        (start (atCall someTasks 0 1 zeroMachine) 0) :=
  always_switchesBack (allowed_backAndForth someLabels someTasks 0 1 0x10500 zeroLeftovers zeroMachine)

end Witness

end Switching

end Zeos
