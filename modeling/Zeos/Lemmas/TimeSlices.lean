import Zeos.Spec.Quantum
import Zeos.Lemmas.Boot
import Zeos.Lemmas.Times

/-!
The quantum of the running task is never used up outside of the scheduler.
-/

namespace Zeos

namespace Times

variable {x y : Times} {free : Option Slot} {r : Readings}

@[simp]
theorem qLeft_setStats (t : Slot) (f : Stats → Stats) : (x.setStats t f).qLeft = x.qLeft := by
  rfl

theorem Switched.qLeft (h : Switched x y) : y.qLeft = x.qLeft ∨ y.qLeft = x.quantum x.current := by
  cases h with
  | dispatched t => exact .inr rfl
  | idle t => exact .inl rfl

theorem Step.qLeft_pos (h : Step free x y) (hleft : 1 ≤ x.qLeft)
    (hquantum : 1 ≤ x.quantum x.current) : 1 ≤ y.qLeft := by
  cases h with
  | same => exact hleft
  | left => exact hleft
  | copied => exact hleft
  | created => exact hleft
  | switched h =>
    rcases h.qLeft with heq | heq
    . rwa [heq]
    . rwa [heq]
  | blocked h =>
    rcases h.qLeft with heq | heq
    . rwa [heq]
    . rwa [heq]
  | ticked hne =>
    unfold tick
    dsimp only
    omega
  | renewed => exact hquantum
  | preempted => exact hquantum

theorem Entered.kept (h : Entered r x y)
    : y.qLeft = x.qLeft ∧ y.quantum = x.quantum ∧ y.current = x.current ∧
        y.incrementalPID = x.incrementalPID := by
  cases h with
  | read => exact ⟨rfl, rfl, rfl, rfl⟩
  | entered => exact ⟨rfl, rfl, rfl, rfl⟩

end Times

namespace Sys

variable {s s' : Sys}

theorem qLeft_pos_step {i : Input} (h : s.step i = some s') (hleft : 1 ≤ s.qLeft)
    (hquantum : s.HasQuantum) : 1 ≤ s'.qLeft := by
  obtain ⟨x, hx, hstep⟩ := step_times h
  obtain ⟨hxleft, hxquantum, hxcurrent, -⟩ := hx.kept
  apply hstep.qLeft_pos
  . rwa [hxleft]
  . rwa [hxquantum, hxcurrent]

theorem qLeft_pos_act {a : Action} (h : s.act a = some s') (hleft : 1 ≤ s.qLeft)
    (hquantum : s.HasQuantum) : 1 ≤ s'.qLeft := by
  cases a with
  | step i => exact qLeft_pos_step h hleft hquantum
  | setQuantum t q =>
    cases h
    exact hleft

theorem timeSliced (h : 1 ≤ s.qLeft) : s.TimeSliced where
  left := h
  next := by
    rw [Kernel.updateSchedDataRr_qLeft]
    omega

end Sys

theorem times_boot {frames : Nat → Nat → Byte} {s : Sys} (hs : boot frames = some s)
    : s.times = (Model.boot frames).times := by
  have hrel := refines_boot frames
  rw [hs] at hrel
  cases hrel with
  | some hr => rw [hr.kernel]

/--
As long as the running task has a quantum of at least one tick, in every state of the run.
-/
theorem timeSliced_of_hasQuantum {frames : Nat → Nat → Byte} {s : Sys} (hs : boot frames = some s)
    {es : List Action} (hquantum : Run.Always Sys.act Sys.HasQuantum es s)
    : Run.Always Sys.act Sys.TimeSliced es s := by
  have hleft : s.times.qLeft = 15 := by
    rw [times_boot hs]
    rfl
  have hpos : Run.Always Sys.act (fun s => 1 ≤ s.qLeft) es s := by
    apply Run.always_of_step (P := fun s => 1 ≤ s.qLeft) _ _ hquantum.allowed
    . intro a s s' hleft hok h
      exact Sys.qLeft_pos_act h hleft hok
    . have : s.qLeft = 15 := hleft
      omega
  exact hpos.mono fun s => Sys.timeSliced

def Action.ofEvent (event : Event) : Action :=
  .step { event := event, readings := .zero }

/--
The first process waits for the keyboard, which leaves one tick to its thread; that waits for a semaphore,
which leaves the tick to the idle task.
-/
theorem timeSliced_of_thread
    : ∃ s, boot (fun _ _ => 0) = some s ∧
        Run.Always Sys.act Sys.TimeSliced
          ((resumed [.semInit 7 0, cloneThread]).map .ofEvent ++ [.setQuantum 13 1] ++
            (resumed [.clock, .clock, .read 0 0x108000 1, .semWait 7, .clock, .keyboard 0x1E 0]).map
              .ofEvent) s := by
  have hquantum : ∀ s ∈ boot fun _ _ => 0, Run.Always Sys.act Sys.HasQuantum
      ((resumed [.semInit 7 0, cloneThread]).map .ofEvent ++ [.setQuantum 13 1] ++
        (resumed [.clock, .clock, .read 0 0x108000 1, .semWait 7, .clock, .keyboard 0x1E 0]).map
          .ofEvent) s := by
    decide +kernel
  obtain ⟨s, hs⟩ := exists_boot fun _ _ => 0
  exact ⟨s, hs, timeSliced_of_hasQuantum hs (hquantum s hs)⟩

end Zeos
