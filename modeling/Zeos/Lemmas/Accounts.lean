import Zeos.Spec.Accounts
import Zeos.Lemmas.TimeSlices

/-!
The statistics account for all the time, but never for the time that a task waits.
-/

namespace Zeos

structure Stats.KeptBy (P : Stats → Prop) (r : Readings) : Prop where
  init : P initStats
  enter : ∀ st, P st → P (st.addUser r.statsEntrySys)
  leave : ∀ st, P st → P (st.addSystem r.statsLeaveSys)
  suspend : ∀ st, P st → P (st.addSystem r.exitRunCurrent)
  dispatch : ∀ st, P st →
    P (((st.addSystem r.schedNextRrSystem).addReady r.schedNextRrReady).addTrans)
  renew : ∀ st, P st → P st.addTrans

namespace Times

variable {x y : Times} {free : Option Slot} {r : Readings} {P : Stats → Prop}

theorem stats_setStats {t : Slot} {f : Stats → Stats} (hx : ∀ u, P (x.stats u))
    (hf : P (f (x.stats t))) : ∀ u, P ((x.setStats t f).stats u) := by
  intro u
  unfold setStats
  dsimp only
  split
  next h =>
    rw [h]
    exact hf
  next => exact hx u

theorem stats_copy (hx : ∀ u, P (x.stats u)) (new : Slot) : ∀ u, P ((x.copy new).stats u) := by
  intro u
  unfold copy
  dsimp only
  split
  next => exact hx x.current
  next => exact hx u

theorem stats_dispatch (hP : Stats.KeptBy P x.readings) (hx : ∀ u, P (x.stats u)) (t : Slot)
    : ∀ u, P ((x.dispatch t).stats u) := by
  show ∀ u, P ((x.setStats t fun st =>
    ((st.addSystem x.readings.schedNextRrSystem).addReady x.readings.schedNextRrReady).addTrans).stats u)
  apply stats_setStats hx
  exact hP.dispatch _ (hx t)

theorem stats_suspend (hP : Stats.KeptBy P x.readings) (hx : ∀ u, P (x.stats u))
    : ∀ u, P (x.suspend.stats u) :=
  stats_setStats hx (hP.suspend _ (hx _))

theorem Switched.stats (h : Switched x y) (hP : Stats.KeptBy P x.readings)
    (hx : ∀ u, P (x.stats u)) : ∀ u, P (y.stats u) := by
  cases h with
  | dispatched t => exact stats_dispatch hP hx t
  | idle t => exact hx

theorem Step.stats (h : Step free x y) (hP : Stats.KeptBy P x.readings)
    (hx : ∀ u, P (x.stats u)) : ∀ u, P (y.stats u) := by
  cases h with
  | same => exact hx
  | left => exact stats_setStats hx (hP.leave _ (hx _))
  | copied new => exact stats_copy hx new
  | created new =>
    show ∀ u, P (((x.copy new).setStats new fun _ => initStats).stats u)
    apply stats_setStats (stats_copy hx new)
    exact hP.init
  | switched h => exact h.stats hP hx
  | blocked h => exact h.stats hP (stats_suspend hP hx)
  | ticked => exact hx
  | renewed => exact stats_setStats hx (hP.renew _ (hx _))
  | preempted _ t =>
    have hsuspend : ∀ u, P (x.tick.suspend.stats u) := stats_suspend (x := x.tick) hP hx
    exact stats_dispatch (x := x.tick.suspend) hP hsuspend t

theorem Entered.stats (h : Entered r x y) (hP : Stats.KeptBy P r) (hx : ∀ u, P (x.stats u))
    : y.readings = r ∧ ∀ u, P (y.stats u) := by
  cases h with
  | read => exact ⟨rfl, hx⟩
  | entered => exact ⟨rfl, stats_setStats (x := { x with readings := r }) hx (hP.enter _ (hx _))⟩

end Times

theorem Sys.stats_step {P : Stats → Prop} {s s' : Sys} {i : Input} (h : s.step i = some s')
    (hP : Stats.KeptBy P i.readings) (hs : ∀ t, P (s.task t).estadisticas)
    : ∀ t, P (s'.task t).estadisticas := by
  obtain ⟨x, hx, hstep⟩ := step_times h
  obtain ⟨hreadings, hstats⟩ := hx.stats hP hs
  rw [← hreadings] at hP
  exact hstep.stats hP hstats

theorem stats_boot {frames : Nat → Nat → Byte} {s : Sys} (hs : boot frames = some s) (t : Slot)
    : (s.task t).estadisticas = initStats := by
  have hstats : s.times.stats t = initStats := by
    rw [times_boot hs]
    fin_cases t <;> rfl
  exact hstats

section Balanced

theorem Readings.Steady.keptBy {r : Readings} (h : r.Steady) : Stats.KeptBy Stats.Balanced r := by
  obtain ⟨hentry, hexit, hsystem, hready, hleave⟩ := h
  constructor
  . rfl
  all_goals
    intro st hst
    unfold Stats.Balanced at *
    simp only [Stats.addUser, Stats.addSystem, Stats.addReady, Stats.addTrans] at *
    grind

/--
The counters of every PCB add up to its last reading of the clock, whatever happens.
-/
theorem always_balanced {frames : Nat → Nat → Byte} {s : Sys} (hs : boot frames = some s)
    {es : List Input} (hsteady : ∀ i ∈ es, i.readings.Steady)
    : Run.Always Sys.step (fun s => ∀ t, (s.task t).estadisticas.Balanced) es s := by
  have hok : Run.Allowed Sys.step (fun i _ => i.readings.Steady) es s :=
    Run.allowed_of_forall fun i hi _ => hsteady i hi
  apply Run.always_of_step _ _ hok
  . intro i s s' hs hi h
    exact Sys.stats_step h hi.keptBy hs
  . intro t
    rw [stats_boot hs]
    rfl

theorem always_balanced_of_fork
    : ∃ s, boot (fun _ _ => 0) = some s ∧
        Run.Always Sys.step (fun s => ∀ t, (s.task t).estadisticas.Balanced)
          ([(.semInit 7 0, 1), (.resume, 2), (.fork, 3), (.resume, 3), (.clock, 5), (.resume, 5),
            (.semWait 7, 8), (.resume, 9)].map Input.at) s := by
  obtain ⟨s, hs⟩ := exists_boot fun _ _ => 0
  exact ⟨s, hs, always_balanced hs (by decide)⟩

end Balanced

section Waiting

def Stats.Unwaited (st : Stats) : Prop :=
  st.readyTicks = 0 ∧ st.blockedTicks = 0

-- The time in the list is charged by the line before, as `system_ticks`.
theorem Readings.keptBy_constant (now : Nat) : Stats.KeptBy Stats.Unwaited (.constant now) := by
  constructor
  . exact ⟨rfl, rfl⟩
  . exact fun _ hst => hst
  . exact fun _ hst => hst
  . exact fun _ hst => hst
  . rintro st ⟨hready, hblocked⟩
    constructor
    . simp [Stats.addSystem, Stats.addReady, Stats.addTrans, Readings.constant, hready]
    . simp [Stats.addSystem, Stats.addReady, Stats.addTrans, hblocked]
  . exact fun _ hst => hst

theorem chargesWaiting_iff {x : Sys × WaitTicks} {t : Slot}
    (h : (x.1.task t).estadisticas.Unwaited) : ChargesWaiting x t ↔ NeverWaited x t := by
  unfold ChargesWaiting NeverWaited
  rw [h.1, h.2]
  simp [eq_comm]

/--
The counters of a process that was created are right just if it has never waited for a tick.
-/
theorem always_chargesWaiting_iff {frames : Nat → Nat → Byte} {s : Sys} (hs : boot frames = some s)
    (es : List (Event × Nat))
    : Run.Always Sys.stepWaits
        (fun x => ∀ t, RunsCreated x t → (ChargesWaiting x t ↔ NeverWaited x t)) es (s, .boot) := by
  have hunwaited : Run.Always Sys.stepWaits
      (fun x => ∀ t, (x.1.task t).estadisticas.Unwaited) es (s, .boot) := by
    have hok : Run.Allowed Sys.stepWaits (fun _ _ => True) es (s, WaitTicks.boot) :=
      Run.allowed_of_forall fun _ _ _ => trivial
    apply Run.always_of_step _ _ hok
    . intro e x y hx _ hstep
      obtain ⟨hstep, -⟩ := Run.ghost_eq_some.mp hstep
      exact Sys.stats_step hstep (Readings.keptBy_constant e.2) hx
    . intro t
      rw [stats_boot hs]
      exact ⟨rfl, rfl⟩
  exact hunwaited.mono fun x hx t _ => chargesWaiting_iff (hx t)

theorem always_chargesWaiting_iff_of_thread
    : ∃ s, boot (fun _ _ => 0) = some s ∧
        Run.Always Sys.stepWaits
          (fun x => ∀ t, RunsCreated x t → (ChargesWaiting x t ↔ NeverWaited x t))
          [(cloneThread, 0), (.resume, 0), (.read 0 0x108000 1, 0), (.resume, 0), (.clock, 1)]
          (s, .boot) := by
  obtain ⟨s, hs⟩ := exists_boot fun _ _ => 0
  exact ⟨s, hs, always_chargesWaiting_iff hs _⟩

theorem not_chargesWaiting_of_ready
    : ∃ s, boot (fun _ _ => 0) = some s ∧
        ¬Run.Always Sys.stepWaits (fun x => ∀ t, RunsCreated x t → ChargesWaiting x t)
          [(cloneThread, 0), (.resume, 0), (.read 0 0x108000 1, 5), (.resume, 5)] (s, .boot) := by
  have hnot : ∀ s ∈ boot fun _ _ => 0, ¬Run.Always Sys.stepWaits
      (fun x => ∀ t, RunsCreated x t → ChargesWaiting x t)
      [(cloneThread, 0), (.resume, 0), (.read 0 0x108000 1, 5), (.resume, 5)] (s, .boot) := by
    decide +kernel
  obtain ⟨s, hs⟩ := exists_boot fun _ _ => 0
  exact ⟨s, hs, hnot s hs⟩

end Waiting

end Zeos
