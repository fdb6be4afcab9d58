import Zeos.Spec.Stores
import Zeos.Lemmas.NullPage

/-!
No call of `sys_read` ever gets as far as to store a key, so none stores one outside its buffer, and none gets
one before its turn.
-/

namespace Zeos

theorem Sys.keysFault_boot {frames : Nat → Nat → Byte} {s : Sys} (hs : boot frames = some s)
    : s.KeysFault := by
  have hrel := refines_boot frames
  rw [hs] at hrel
  obtain ⟨hr⟩ := hrel
  rw [hr.kernel]
  exact Zeos.keysFault_boot frames

/--
Whatever the calls of `sys_read` ask for, and in whatever order they, the keys and all other events come.
-/
theorem always_allInside {frames : Nat → Nat → Byte} {s : Sys} (hs : boot frames = some s) (es : List Input)
    : Run.Always Sys.stepStores (fun x => x.2.AllInside) es (s, .none) := by
  have hinv : Run.Always Sys.stepStores (fun x => x.1.KeysFault ∧ x.2.AllInside) es (s, .none) := by
    have hok : Run.Allowed Sys.stepStores (fun _ _ => True) es (s, .none) :=
      Run.allowed_of_forall fun _ _ _ => trivial
    apply Run.always_of_step _ _ hok
    . rintro i x y ⟨hfault, hinside⟩ - hstep
      obtain ⟨hrun, hrecord⟩ := Run.ghost_eq_some.mp hstep
      have hkept := Sys.undelivered_step hfault hrun
      refine ⟨hfault.undelivered hkept, ?_⟩
      intro z hz
      rw [hrecord, Stores.after, hkept.copiesSince, List.map_nil, List.append_nil] at hz
      apply hinside
      unfold Stores.call at hz
      split at hz
      next => exact hz
      next => exact hz
    . exact ⟨Sys.keysFault_boot hs, nofun⟩
  exact hinv.mono fun x hx => hx.2

/--
A call for more keys than the buffer has room for is woken when that is full.
-/
theorem always_allInside_of_full
    : ∃ s, boot (fun _ _ => 0) = some s ∧
        Run.Always Sys.stepStores (fun x => x.2.AllInside)
          (atRest (resumed ([.read 0 0x108000 40] ++ List.replicate 16 (.keyboard 0x1E 0) ++
            List.replicate 15 .clock))) (s, .none) := by
  obtain ⟨s, hs⟩ := exists_boot fun _ _ => 0
  exact ⟨s, hs, always_allInside hs _⟩

/--
Likewise, no key goes to a reader while the call of another one is older and has not come back.
-/
theorem always_not_overtaken {frames : Nat → Nat → Byte} {s : Sys} (hs : boot frames = some s)
    (es : List Input) : Run.Always Sys.stepCalls (fun x => x.2.overtaken = []) es (s, .boot) := by
  have hinv : Run.Always Sys.stepCalls (fun x => x.1.KeysFault ∧ x.2.overtaken = []) es (s, .boot) := by
    have hok : Run.Allowed Sys.stepCalls (fun _ _ => True) es (s, .boot) :=
      Run.allowed_of_forall fun _ _ _ => trivial
    apply Run.always_of_step _ _ hok
    . rintro i x y ⟨hfault, hnone⟩ - hstep
      obtain ⟨hrun, hrecord⟩ := Run.ghost_eq_some.mp hstep
      have hkept := Sys.undelivered_step hfault hrun
      refine ⟨hfault.undelivered hkept, ?_⟩
      rw [hrecord]
      unfold Calls.after
      dsimp only
      rw [hkept.copiesSince, hnone]
      rfl
    . exact ⟨Sys.keysFault_boot hs, rfl⟩
  exact hinv.mono fun x hx => hx.2

/--
The first process has been woken by a key, and a thread asks for one before it runs.
-/
theorem always_not_overtaken_of_woken
    : ∃ s, boot (fun _ _ => 0) = some s ∧
        Run.Always Sys.stepCalls (fun x => x.2.overtaken = [])
          (atRest (resumed [cloneThread, .read 0 0x108000 1, .keyboard 0x1E 0] ++ [.read 0 0x108000 1]))
          (s, .boot) := by
  obtain ⟨s, hs⟩ := exists_boot fun _ _ => 0
  exact ⟨s, hs, always_not_overtaken hs _⟩

end Zeos
