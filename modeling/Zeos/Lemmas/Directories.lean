import Zeos.Lemmas.FreeQueue

/-!
`refs_DIR` and the processes that use a directory.
-/

namespace Zeos

namespace Populated

open Model

variable {x : Sys × Finset Slot} {m : Model} {d : DirIx}

theorem members_eq_empty_iff {k : Kernel} {live : Finset Slot}
    : members k live d = ∅ ↔ ∀ t ∈ live, (k.task t).nDirectorio ≠ d := by
  unfold members
  rw [Finset.filter_eq_empty_iff]

/--
`init_idle` and `init_task1` count the first two processes twice.
-/
theorem counted_iff (h : Populated x m) : Counted x d ↔ d ≠ 0 ∧ d ≠ 1 := by
  have hkernel := h.refines.kernel
  have hrefs := h.population.refs d
  constructor
  . intro hcounted
    have hcard := hcounted.refs
    rw [hkernel, hrefs] at hcard
    rw [← not_or]
    intro hfirst
    rw [if_pos hfirst] at hcard
    omega
  . rintro ⟨h0, h1⟩
    rw [if_neg (by simp [h0, h1]), Int.add_zero] at hrefs
    have hempty : m.refsDIR d = 0 ↔ ∀ t ∈ x.2, (m.task t).nDirectorio ≠ d := by
      rw [hrefs, Int.natCast_eq_zero, Finset.card_eq_zero, members_eq_empty_iff]
    constructor
    . rw [hkernel]
      exact hrefs
    . rw [hkernel]
      exact hempty
    . intro p hp
      rw [hkernel]
      by_cases hzero : m.refsDIR d = 0
      . have hpage := h.population.spaces.empty d p hp (fun hown => hown.2 hzero)
        have hnone := hempty.mp hzero
        rw [hpage]
        simpa [PageTableEntry.zero] using hnone
      . obtain ⟨f, hf, -, -⟩ := h.population.spaces.mapped d p hp ⟨h0, hzero⟩
        rw [hf]
        rw [hempty] at hzero
        push Not at hzero
        simpa [Mm.ssEntry] using hzero

end Populated

/--
As long as no fork or clone takes a PCB that is linked to itself, all directories but those of the first
two processes are counted right.
-/
theorem always_counted_iff {frames : Nat → Nat → Byte} {s : Sys} (hs : boot frames = some s)
    {es : List Input} (hlife : ∀ i ∈ es, i.event.lifeCycle)
    (hsound : Run.Allowed Sys.stepLive Sys.TakesSound es (s, liveBoot))
    : Run.Always Sys.stepLive (fun x => ∀ d, Counted x d ↔ d ≠ 0 ∧ d ≠ 1) es (s, liveBoot) := by
  have hinv := (Populated.boot hs).always hlife hsound
  apply hinv.mono
  rintro x ⟨m, hm⟩ d
  exact hm.counted_iff

/--
The first process forks and makes a thread, and exits, and so does its child, which is alone in its directory.
-/
theorem always_counted_of_fork
    : ∃ s, boot (fun _ _ => 0) = some s ∧
        Run.Always Sys.stepLive (fun x => ∀ d, Counted x d ↔ d ≠ 0 ∧ d ≠ 1)
          (atRest ([.fork, .resume, cloneThread, .resume] ++ [.exit, .resume, .exit, .resume]))
          (s, liveBoot) := by
  obtain ⟨s, hs⟩ := exists_boot fun _ _ => 0
  have hsound : Run.Allowed Sys.stepLive Sys.TakesSound
      (atRest [.fork, .resume, cloneThread, .resume] ++ atRest [.exit, .resume, .exit, .resume])
      (s, liveBoot) :=
    (Populated.boot hs).takesSound_append rfl (by decide) (by decide)
  exact ⟨s, hs, always_counted_iff hs (by decide) hsound⟩

theorem not_counted_first : ∃ s, boot (fun _ _ => 0) = some s ∧ ¬Counted (s, liveBoot) 1 := by
  obtain ⟨s, hs⟩ := exists_boot fun _ _ => 0
  refine ⟨s, hs, ?_⟩
  rw [(Populated.boot hs).counted_iff]
  decide

end Zeos
