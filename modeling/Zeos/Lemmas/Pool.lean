import Zeos.Lib.Run
import Zeos.Spec.Pool
import Zeos.Lemmas.Mm

/-!
`alloc_frame` and `free_frame` as a pool of frames. Its first frame is the one that `free_frame` does not
take back.
-/

namespace Zeos

structure CountsPool (x : Mm × Finset Nat) : Prop where
  pool : ∀ f ∈ x.2, PoolFrame f
  used : ∀ f, PoolFrame f → (x.1.physMem f = .freeFrame ↔ f ∉ x.2)

namespace CountsPool

variable {x y : Mm × Finset Nat} {call : FrameCall} {mm : Mm} {f : Nat}

theorem initFrames (mm : Mm) : CountsPool (mm.initFrames, ∅) where
  pool f hf := by simp at hf
  used f hf := by
    simp only [Mm.initFrames, Finset.notMem_empty, not_false_iff, iff_true]
    rw [if_neg (not_lt.mpr hf.1), if_pos hf.2.1]

theorem servesPool (h : CountsPool x) : ServesPool x where
  fresh f hf := by
    obtain ⟨hfree, hle, hlt, hmod, -⟩ := Mm.allocFrame_eq_some (Prod.ext hf rfl)
    have hpool : PoolFrame f := ⟨hle, hlt, hmod⟩
    exact ⟨hpool, (h.used f hpool).mp hfree⟩
  full hnone f hf := by
    have hused := Mm.allocFrame_eq_none (Prod.ext hnone rfl) f hf.1 hf.2.1 hf.2.2
    by_contra hnot
    rw [(h.used f hf).mpr hnot] at hused
    cases hused
  available f hf hnot := (h.used f hf).mpr hnot

theorem alloc (h : CountsPool x) (hstep : frameStep .alloc x = some y) : CountsPool y := by
  unfold frameStep at hstep
  dsimp only at hstep
  split at hstep
  next f mm halloc =>
    obtain ⟨-, hle, hlt, hmod, rfl⟩ := Mm.allocFrame_eq_some halloc
    cases hstep
    constructor
    . intro g hg
      rcases Finset.mem_insert.mp hg with rfl | hg
      . exact ⟨hle, hlt, hmod⟩
      . exact h.pool g hg
    . intro g hg
      rw [Mm.physMem_setPhysMem, Finset.mem_insert, not_or]
      by_cases heq : g = f
      . simp [heq]
      . simp [heq, h.used g hg]
  next mm halloc =>
    cases hstep
    have hsame : mm = x.1 := by
      unfold Mm.allocFrame at halloc
      split at halloc
      next => cases halloc
      next => exact (congrArg Prod.snd halloc).symm
    rw [hsame]
    exact h

theorem free (h : CountsPool x) (hf : f ≠ numPagKernel) (hstep : frameStep (.free f) x = some y)
    : CountsPool y := by
  obtain ⟨hmem, heq⟩ := Option.ite_none_right_eq_some.mp hstep
  cases heq
  obtain ⟨hle, hlt, -⟩ := h.pool f hmem
  have hfreed : x.1.freeFrame f = x.1.setPhysMem f .freeFrame := if_pos ⟨by omega, hlt⟩
  constructor
  . intro g hg
    exact h.pool g (Finset.mem_of_mem_erase hg)
  . intro g hg
    rw [hfreed, Mm.physMem_setPhysMem, Finset.mem_erase, not_and]
    by_cases heq : g = f
    . simp [heq]
    . simp [heq, h.used g hg]

theorem step (h : CountsPool x) (hok : FreesLater call x) (hstep : frameStep call x = some y)
    : CountsPool y := by
  cases call with
  | alloc => exact h.alloc hstep
  | free f =>
    apply h.free _ hstep
    rintro rfl
    exact hok rfl (Option.ite_none_right_eq_some.mp hstep).1

/--
The guard of `free_frame` lets the first frame of the pool through to nobody.
-/
theorem not_servesPool (h : CountsPool x) (hnot : ¬FreesLater call x)
    : ∃ y, frameStep call x = some y ∧ ¬ServesPool y := by
  unfold FreesLater at hnot
  push Not at hnot
  obtain ⟨rfl, hmem⟩ := hnot
  refine ⟨_, if_pos hmem, ?_⟩
  intro hserves
  have hpool := h.pool _ hmem
  have hfree := hserves.available _ hpool (Finset.notMem_erase _ _)
  have hsame : x.1.freeFrame numPagKernel = x.1 := if_neg (by omega)
  rw [hsame] at hfree
  exact (h.used _ hpool).mp hfree hmem

end CountsPool

/--
The two functions are a pool of frames exactly along the sequences of calls that do not give back frame
`NUM_PAG_KERNEL`.
-/
theorem always_servesPool_iff (mm : Mm) (calls : List FrameCall)
    : Run.Always frameStep ServesPool calls (mm.initFrames, ∅) ↔
        Run.Allowed frameStep FreesLater calls (mm.initFrames, ∅) := by
  refine Run.always_iff_allowed (I := CountsPool) ?_ ?_ ?_ (.initFrames mm)
  . intro x h
    exact h.servesPool
  . intro call x y h hok hstep
    exact h.step hok hstep
  . intro call x h hok
    exact h.not_servesPool hok

theorem not_servesPool_first
    : ¬Run.Always frameStep ServesPool [.alloc, .free 256]
        (Mm.initFrames ⟨fun _ => .usedFrame, fun _ => .zero, fun _ _ => 0⟩, ∅) := by
  intro h
  have hlast := h.last rfl
  exact absurd (hlast.available 256 (by decide) (by decide)) (by decide)

end Zeos
