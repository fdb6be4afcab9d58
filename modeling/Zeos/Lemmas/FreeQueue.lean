import Zeos.Lemmas.LifeCycle

/-!
The free PCBs are a ring as long as no process exits. `sys_exit` inserts its PCB a second time at the
tail, which closes the last link on itself.
-/

namespace Zeos

namespace Populated

open Model

variable {x y : Sys × Finset Slot} {m : Model}

theorem freeRing (h : Populated x m) (hring : m.queues.shape .freequeue = .ring) : FreeRing x := by
  have hset : m.queues.shape .freequeue ≠ .unset := by simp [hring]
  constructor
  . refine ⟨m.seq .freequeue, ?_, h.settled.placed.nodup _, h.population.free⟩
    exact h.toFollows.lists hring (fun i hi => by cases hi)
  . intro t ht
    rw [h.refines.firstTask_eq hset] at ht
    exact (h.population.free t).mp (List.mem_of_mem_head? ht)
  . rw [h.refines.listEmpty_eq hset, List.isEmpty_iff]
    constructor
    . intro hnil t
      by_contra ht
      have := (h.population.free t).mpr ht
      rw [hnil] at this
      cases this
    . intro hall
      rw [List.eq_nil_iff_forall_not_mem]
      exact fun t ht => (h.population.free t).mp ht (hall t)

theorem step_ring (h : Populated x m) (hring : m.queues.shape .freequeue = .ring) {i : Input}
    (hlife : i.event.lifeCycle) (hexit : i.event ≠ .exit) (hstep : Sys.stepLive i x = some y)
    : ∃ m', Populated y m' ∧ m'.queues.shape .freequeue = .ring := by
  have hsound : Sys.TakesSound i x := fun _ => h.refines.firstFreeSound_of_ring hring
  obtain ⟨m', hm', hy, -⟩ := h.step hlife hsound hstep
  obtain ⟨hshape, -⟩ := h.settled.freequeue_step hexit hm'
  exact ⟨m', hy, hshape.trans hring⟩

/--
Until a process exits, whatever is taken out of the ring is not linked to itself.
-/
theorem takesSound_append (h : Populated x m) (hring : m.queues.shape .freequeue = .ring)
    {es es' : List Input}
    (hes : ∀ i ∈ es, i.event.lifeCycle ∧ i.event ≠ .exit) (hes' : ∀ i ∈ es', ¬i.event.Creates)
    : Run.Allowed Sys.stepLive Sys.TakesSound (es ++ es') x := by
  induction es generalizing x m with
  | nil => exact Run.allowed_of_forall fun i hi _ hcreates => absurd hcreates (hes' i hi)
  | cons i es ih =>
    obtain ⟨hlife, hexit⟩ := hes i (by simp)
    refine ⟨fun _ => h.refines.firstFreeSound_of_ring hring, fun y hstep => ?_⟩
    obtain ⟨m', hy, hring'⟩ := h.step_ring hring hlife hexit hstep
    exact ih hy hring' fun i hi => hes i (by simp [hi])

theorem not_freeRing_of_exit (h : Populated x m) (hring : m.queues.shape .freequeue = .ring)
    {i : Input} (hexit : i.event = .exit) (hstep : Sys.stepLive i x = some y) : ¬FreeRing y := by
  have hsound : Sys.TakesSound i x := by
    intro hcreates
    simp [hexit, Event.Creates] at hcreates
  obtain ⟨m', hm', hy⟩ := h.toFollows.step hsound hstep
  obtain ⟨hseq, hshape⟩ := h.settled.freequeue_step_exit hexit hm'
  have hs := hy.refines.links.shaped .freequeue
  rw [hshape, hring] at hs
  obtain ⟨us, l, -, hknot⟩ := hs
  rintro ⟨⟨ts, hlists, -, -⟩, -, -⟩
  exact hknot.not_ring _ hlists

end Populated

/--
Along a run of forks, clones, exits and scheduling, the free PCBs are the ring they should be just if no
process has exited.
-/
theorem always_freeRing_iff {frames : Nat → Nat → Byte} {s : Sys} (hs : boot frames = some s)
    {es : List Input} (hlife : ∀ i ∈ es, i.event.lifeCycle) (hrun : (Run.run Sys.step es s).isSome)
    : Run.Always Sys.stepLive FreeRing es (s, liveBoot) ↔ ∀ i ∈ es, i.event ≠ .exit := by
  apply Run.always_iff_forall (I := fun x => ∃ m, Populated x m ∧ m.queues.shape .freequeue = .ring)
  . rintro x ⟨m, hm, hring⟩
    exact hm.freeRing hring
  . rintro i hi x y ⟨m, hm, hring⟩ hexit hstep
    exact hm.step_ring hring (hlife i hi) hexit hstep
  . rintro i hi x y ⟨m, hm, hring⟩ hexit hstep
    exact hm.not_freeRing_of_exit hring (not_not.mp hexit) hstep
  . exact ⟨_, .boot hs, rfl⟩
  . have hfst : (Run.run Sys.stepLive es (s, liveBoot)).map Prod.fst = Run.run Sys.step es s :=
      Run.map_fst_run_ghost
    rw [← hfst, Option.isSome_map] at hrun
    exact hrun

theorem always_freeRing_of_clone
    : ∃ s, boot (fun _ _ => 0) = some s ∧
        Run.Always Sys.stepLive FreeRing
          (atRest [.clone 0x100000 0x108000, .resume, .clock, .resume]) (s, liveBoot) := by
  have hrun : ∀ s ∈ boot (fun _ _ => 0), (Run.run Sys.step
      (atRest [.clone 0x100000 0x108000, .resume, .clock, .resume]) s).isSome := by
    decide +kernel
  obtain ⟨s, hs⟩ := exists_boot fun _ _ => 0
  exact ⟨s, hs, (always_freeRing_iff hs (by decide) (hrun s hs)).mpr (by decide)⟩

theorem not_freeRing_of_first_exit
    : ∃ s x, boot (fun _ _ => 0) = some s ∧
        Run.run Sys.stepLive (atRest [.exit]) (s, liveBoot) = some x ∧ ¬FreeRing x := by
  have hrun : ∀ s ∈ boot (fun _ _ => 0),
      (Run.run Sys.stepLive (atRest [.exit]) (s, liveBoot)).isSome := by
    decide +kernel
  obtain ⟨s, hs⟩ := exists_boot fun _ _ => 0
  obtain ⟨x, hx⟩ := Option.isSome_iff_exists.mp (hrun s hs)
  obtain ⟨y, hy, hx'⟩ := Option.bind_eq_some_iff.mp hx
  cases hx'
  exact ⟨s, x, hs, hx, (Populated.boot hs).not_freeRing_of_exit rfl rfl hy⟩

end Zeos
