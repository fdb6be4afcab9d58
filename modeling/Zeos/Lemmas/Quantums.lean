import Zeos.Lemmas.Places
import Zeos.Lemmas.TimeSlices

/-!
`get_quantum` and `set_quantum` work on the running task, whatever task they are asked for. As long as all
quanta are equal that makes no difference.
-/

namespace Zeos

namespace Times

variable {x y : Times} {free : Option Slot} {r : Readings}

theorem Switched.given (h : Switched x y)
    : (y.stats y.current).totalTrans = (x.stats y.current).totalTrans ∨
        y.qLeft = x.quantum x.current := by
  cases h with
  | dispatched t => exact .inr rfl
  | idle t => exact .inl rfl

theorem totalTrans_setStats {t : Slot} {f : Stats → Stats} (hf : ∀ st, (f st).totalTrans = st.totalTrans)
    (u : Slot) : ((x.setStats t f).stats u).totalTrans = (x.stats u).totalTrans := by
  unfold setStats
  dsimp only
  split
  next => exact hf _
  next => rfl

theorem totalTrans_leave (u : Slot) : (x.leave.stats u).totalTrans = (x.stats u).totalTrans := by
  unfold leave
  apply totalTrans_setStats
  intro st
  rfl

theorem totalTrans_enter (u : Slot) : (x.enter.stats u).totalTrans = (x.stats u).totalTrans := by
  unfold enter
  apply totalTrans_setStats
  intro st
  rfl

theorem totalTrans_suspend (u : Slot) : (x.suspend.stats u).totalTrans = (x.stats u).totalTrans := by
  unfold suspend
  apply totalTrans_setStats
  intro st
  rfl

theorem Step.given (h : Step free x y) (hfree : ∀ new, free = some new → x.current ≠ new)
    : (y.stats y.current).totalTrans = (x.stats y.current).totalTrans ∨
        y.qLeft = x.quantum x.current := by
  cases h with
  | same => exact .inl rfl
  | left => exact .inl (totalTrans_leave _)
  | copied new hnew =>
    left
    simp [copy, hfree new hnew]
  | created new hnew =>
    left
    simp [create, copy, setStats, hfree new hnew]
  | switched h => exact h.given
  | blocked h =>
    rcases h.given with htrans | hleft
    . left
      rw [htrans, totalTrans_suspend]
    . exact .inr hleft
  | ticked => exact .inl rfl
  | renewed => exact .inr rfl
  | preempted => exact .inr rfl

theorem Switched.quantum (h : Switched x y)
    : y.quantum = x.quantum ∧ y.incrementalPID = x.incrementalPID := by
  cases h with
  | dispatched t => exact ⟨rfl, rfl⟩
  | idle t => exact ⟨rfl, rfl⟩

theorem Step.quantum (h : Step free x y) (t : Slot)
    : y.quantum t = x.quantum t ∨ y.quantum t = x.quantum x.current := by
  cases h with
  | same => exact .inl rfl
  | left => exact .inl rfl
  | copied new =>
    unfold copy
    dsimp only
    split
    next => exact .inr rfl
    next => exact .inl rfl
  | created new =>
    simp only [create, setStats, copy]
    split
    next => exact .inr rfl
    next => exact .inl rfl
  | switched h => exact .inl (by rw [h.quantum.1])
  | blocked h =>
    left
    rw [h.quantum.1]
    rfl
  | ticked => exact .inl rfl
  | renewed => exact .inl rfl
  | preempted => exact .inl rfl

theorem Step.quantum_of_created (h : Step free x y) (hpid : y.incrementalPID ≠ x.incrementalPID)
    : ∃ new, free = some new ∧ y.quantum new = x.quantum x.current := by
  cases h with
  | created new hnew =>
    refine ⟨new, hnew, ?_⟩
    simp [create, setStats, copy]
  | switched h => exact absurd h.quantum.2 hpid
  | blocked h => exact absurd h.quantum.2 hpid
  | _ => exact absurd rfl hpid

end Times

section Steps

open Times

variable {s s' : Sys} {i : Input}

theorem Sys.quantum_step (h : s.step i = some s') (t : Slot)
    : (s'.task t).quantum = (s.task t).quantum ∨ (s'.task t).quantum = (s.task s.current).quantum := by
  obtain ⟨x, hx, hstep⟩ := step_times h
  obtain ⟨-, hquantum, hcurrent, -⟩ := hx.kept
  have := hstep.quantum t
  rw [hquantum, hcurrent] at this
  exact this

theorem Sys.quantum_created (h : s.step i = some s') (hpid : s'.incrementalPID ≠ s.incrementalPID)
    : ∃ new, firstTask .freequeue s.links = some new ∧
        (s'.task new).quantum = (s.task s.current).quantum := by
  obtain ⟨x, hx, hstep⟩ := step_times h
  obtain ⟨-, hquantum, hcurrent, hxpid⟩ := hx.kept
  have := hstep.quantum_of_created (by rw [hxpid]; exact hpid)
  rw [hquantum, hcurrent] at this
  exact this

theorem Sys.given_step (h : s.step i = some s')
    (hfree : ∀ new, firstTask .freequeue s.links = some new → s.current ≠ new)
    (htrans : (s'.task s'.current).estadisticas.totalTrans ≠
      (s.task s'.current).estadisticas.totalTrans) : s'.qLeft = (s.task s.current).quantum := by
  obtain ⟨x, hx, hstep⟩ := step_times h
  obtain ⟨-, hquantum, hcurrent, -⟩ := hx.kept
  have hsame : ∀ u, (x.stats u).totalTrans = (s.times.stats u).totalTrans := by
    cases hx with
    | read => exact fun _ => rfl
    | entered => exact totalTrans_enter (x := { s.times with readings := i.readings })
  rcases hstep.given (by rw [hcurrent]; exact hfree) with heq | hleft
  . rw [hsame] at heq
    exact absurd heq htrans
  . rw [hquantum, hcurrent] at hleft
    exact hleft

end Steps

theorem mem_liveAfter_of_mem {event : Event} {k k' : Kernel} {free : Option Slot} {live : Finset Slot}
    {t : Slot} (hexit : event ≠ .exit) (ht : t ∈ live) : t ∈ liveAfter event k k' free live := by
  rw [liveAfter_eq, if_neg hexit]
  cases createdBy event k k' free with
  | none => exact ht
  | some new => exact Finset.mem_insert_of_mem ht

theorem mem_of_mem_liveAfter {event : Event} {k k' : Kernel} {free : Option Slot} {live : Finset Slot}
    {t : Slot} (ht : t ∈ liveAfter event k k' free live)
    : t ∈ live ∨ createdBy event k k' free = some t := by
  rw [liveAfter_eq] at ht
  split at ht
  next => exact .inl (Finset.mem_of_mem_erase ht)
  next =>
    cases hnew : createdBy event k k' free with
    | none =>
      rw [hnew] at ht
      exact .inl ht
    | some new =>
      rw [hnew] at ht
      rcases Finset.mem_insert.mp ht with rfl | ht
      . exact .inr rfl
      . exact .inl ht

structure SameQuantums (x : Sys × QuantumLog) (m : Model) : Prop where
  follows : Follows (x.1, x.2.live) m
  ring : m.queues.shape .freequeue = .ring
  idle_live : 14 ∈ x.2.live
  first_live : 13 ∈ x.2.live
  own : ∀ t ∈ x.2.live, (x.1.task t).quantum = defaultQuantum
  log : ∀ t ∈ x.2.live, x.2.quantum t = defaultQuantum
  given : ∀ t ∈ x.2.given, t ∈ x.2.live ∧ x.1.qLeft = defaultQuantum

namespace SameQuantums

variable {x y : Sys × QuantumLog} {m : Model}

theorem current_live (h : SameQuantums x m) : x.1.current ∈ x.2.live := by
  rw [h.follows.refines.kernel]
  exact h.follows.settled.live

theorem quantumsKept (h : SameQuantums x m) : QuantumsKept x where
  own t ht := (h.own t ht).trans (h.log t ht).symm
  get t ht := by
    rw [h.log t ht]
    exact h.own _ h.current_live
  given t ht := by
    obtain ⟨hlive, hleft⟩ := h.given t ht
    rw [hleft, h.log t hlive]

theorem step (h : SameQuantums x m) {i : Input} (hexit : i.event ≠ .exit)
    (hstep : Sys.actLog (.step i) x = some y) : ∃ m', SameQuantums y m' := by
  obtain ⟨hstep, hlog⟩ := Run.ghost_eq_some.mp hstep
  have hlive : y.2.live = liveAfter i.event x.1.toKernel y.1.toKernel
      (firstTask .freequeue x.1.links) x.2.live := by
    rw [hlog]
    rfl
  have hfollows : Sys.stepLive i (x.1, x.2.live) = some (y.1, y.2.live) :=
    Run.ghost_eq_some.mpr ⟨hstep, hlive⟩
  obtain ⟨m', -, hfollows, hring⟩ := h.follows.step_ring h.ring hexit hfollows
  have hkept : ∀ t ∈ x.2.live, t ∈ y.2.live := by
    intro t ht
    rw [hlive]
    exact mem_liveAfter_of_mem hexit ht
  have hcurrent := h.own _ h.current_live
  refine ⟨m', hfollows, hring, hkept _ h.idle_live, hkept _ h.first_live, ?_, ?_, ?_⟩
  . intro t ht
    rw [hlive] at ht
    rcases mem_of_mem_liveAfter ht with ht | hcreated
    . rcases Sys.quantum_step hstep t with heq | heq
      . rw [heq, h.own t ht]
      . rw [heq, hcurrent]
    . obtain ⟨hpid, hfree⟩ := createdBy_eq_some hcreated
      obtain ⟨new, hnew, hquantum⟩ := Sys.quantum_created hstep hpid
      rw [hfree] at hnew
      cases hnew
      rw [hquantum, hcurrent]
  . intro t ht
    rw [hlive] at ht
    rw [hlog]
    simp only [QuantumLog.after, QuantumLog.afterStep]
    split
    next => exact h.log _ h.current_live
    next hne => exact h.log t ((mem_of_mem_liveAfter ht).resolve_right hne)
  . intro t ht
    rw [hlog] at ht
    simp only [QuantumLog.after, QuantumLog.afterStep, Option.mem_def, Option.ite_none_left_eq_some] at ht
    obtain ⟨htrans, ht⟩ := ht
    cases ht
    constructor
    . rw [hfollows.refines.kernel]
      exact hfollows.settled.live
    . rw [Sys.given_step hstep ?_ htrans, hcurrent]
      intro new hnew heq
      have hset : m.queues.shape .freequeue ≠ .unset := by simp [h.ring]
      rw [h.follows.refines.firstTask_eq hset] at hnew
      apply h.follows.settled.placed.not_live_of_free new (List.mem_of_mem_head? hnew)
      rw [← heq]
      exact h.current_live

theorem setQuantum (h : SameQuantums x m) {t : Slot}
    (hstep : Sys.actLog (.setQuantum t defaultQuantum) x = some y) : ∃ m', SameQuantums y m' := by
  obtain ⟨hstep, hlog⟩ := Run.ghost_eq_some.mp hstep
  obtain ⟨s', g⟩ := y
  cases hstep
  cases hlog
  refine ⟨m.mapKernel (Kernel.setQuantum t defaultQuantum), ⟨?_, ?_, ?_⟩, h.ring, h.idle_live,
    h.first_live, ?_, ?_, ?_⟩
  . exact h.follows.refines.mapKernel _
  . apply h.follows.settled.mapKernel
    . intro u _
      simp [Model.estado]
    . exact ⟨rfl, .inl rfl⟩
    . rfl
    . intro i
      rfl
  . exact h.follows.free_open
  . intro u hu
    simp only [Kernel.setQuantum_task]
    split
    next => rfl
    next => exact h.own u hu
  . intro u hu
    dsimp only
    split
    next => rfl
    next => exact h.log u hu
  . intro u hu
    cases hu

/--
Any other quantum is set for the wrong task, or is returned for another one.
-/
theorem not_quantumsKept (h : SameQuantums x m) {t : Slot} {q : Int} (hq : q ≠ defaultQuantum)
    (hstep : Sys.actLog (.setQuantum t q) x = some y) : ¬QuantumsKept y := by
  obtain ⟨hstep, hlog⟩ := Run.ghost_eq_some.mp hstep
  obtain ⟨s', g⟩ := y
  cases hstep
  cases hlog
  intro hkept
  have hget : ∀ u ∈ x.2.live, u ≠ t → q = defaultQuantum := by
    intro u hu hne
    have := hkept.get u hu
    simp only [if_neg hne, h.log u hu] at this
    rw [← this]
    simp [Kernel.getQuantum]
  by_cases ht : t = 13
  . exact hq (hget 14 h.idle_live (by rw [ht]; decide))
  . exact hq (hget 13 h.first_live (Ne.symm ht))

end SameQuantums

/--
Whatever the tasks do short of leaving, their quanta are what they should be just if every call of
`set_quantum` sets the default.
-/
theorem always_quantumsKept_iff {frames : Nat → Nat → Byte} {s : Sys} (hs : boot frames = some s)
    {es : List Action} (hstays : ∀ a ∈ es, a.Stays) (hrun : (Run.run Sys.act es s).isSome)
    : Run.Always Sys.actLog QuantumsKept es (s, .boot) ↔ ∀ a ∈ es, a.SetsDefault := by
  apply Run.always_iff_forall (I := fun x => ∃ m, SameQuantums x m)
  . rintro x ⟨m, h⟩
    exact h.quantumsKept
  . rintro a ha x y ⟨m, h⟩ hok hstep
    cases a with
    | step i => exact h.step (hstays _ ha) hstep
    | setQuantum t q =>
      cases hok
      exact h.setQuantum hstep
  . rintro a ha x y ⟨m, h⟩ hnot hstep
    cases a with
    | step i => exact absurd trivial hnot
    | setQuantum t q => exact h.not_quantumsKept hnot hstep
  . have hidle : (14 : Slot) ∈ liveBoot := by decide
    have hfirst : (13 : Slot) ∈ liveBoot := by decide
    refine ⟨_, .boot hs, rfl, hidle, hfirst, ?_, fun _ _ => rfl, fun t ht => by cases ht⟩
    intro t ht
    have hquantum : s.times.quantum t = (Model.boot frames).times.quantum t := by rw [times_boot hs]
    have hdefault : ∀ u ∈ liveBoot, (Model.boot frames).times.quantum u = defaultQuantum := by
      intro u hu
      simp only [liveBoot, Finset.mem_insert, Finset.mem_singleton] at hu
      rcases hu with rfl | rfl
      . rfl
      . rfl
    exact hquantum.trans (hdefault t ht)
  . have hfst : (Run.run Sys.actLog es (s, QuantumLog.boot)).map Prod.fst = Run.run Sys.act es s :=
      Run.map_fst_run_ghost
    rw [← hfst, Option.isSome_map] at hrun
    exact hrun

theorem always_quantumsKept_of_thread
    : ∃ s, boot (fun _ _ => 0) = some s ∧
        Run.Always Sys.actLog QuantumsKept
          ((resumed [cloneThread]).map .ofEvent ++ [.setQuantum 12 15] ++
            (resumed (List.replicate 16 .clock)).map .ofEvent) (s, .boot) := by
  have hrun : ∀ s ∈ boot fun _ _ => 0, (Run.run Sys.act
      ((resumed [cloneThread]).map .ofEvent ++ [.setQuantum 12 15] ++
        (resumed (List.replicate 16 .clock)).map .ofEvent) s).isSome := by
    decide +kernel
  obtain ⟨s, hs⟩ := exists_boot fun _ _ => 0
  exact ⟨s, hs, (always_quantumsKept_iff hs (by decide) (hrun s hs)).mpr (by decide)⟩

/--
The thread is to have a quantum of twenty ticks, but it is its parent that gets them.
-/
theorem not_quantumsKept_of_thread
    : ∃ s, boot (fun _ _ => 0) = some s ∧
        ¬Run.Always Sys.actLog QuantumsKept
          ((resumed [cloneThread]).map .ofEvent ++ [.setQuantum 12 20]) (s, .boot) := by
  have hnot : ∀ s ∈ boot fun _ _ => 0, ¬Run.Always Sys.actLog QuantumsKept
      ((resumed [cloneThread]).map .ofEvent ++ [.setQuantum 12 20]) (s, .boot) := by
    decide +kernel
  obtain ⟨s, hs⟩ := exists_boot fun _ _ => 0
  exact ⟨s, hs, hnot s hs⟩

end Zeos
