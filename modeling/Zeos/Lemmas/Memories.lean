import Zeos.Lemmas.LifeCycle
import Zeos.Spec.Memory

/-!
Physical memory and the page tables give each address space a memory of its own.
-/

namespace Zeos

open Model

/--
The record agrees with the tables: processes with the same directory are those with the same memory.
-/
structure Remembers (m : Model) (live : Finset Slot) (g : Memories) : Prop where
  same : ∀ t ∈ live, ∀ u ∈ live, (m.task t).nDirectorio ≠ 0 → (m.task u).nDirectorio ≠ 0 →
    (g.space t = g.space u ↔ (m.task t).nDirectorio = (m.task u).nDirectorio)
  lt : ∀ t ∈ live, g.space t < g.next
  bytes : ∀ t ∈ live, (m.task t).nDirectorio ≠ 0 → ∀ a, DataAddr a →
    m.mm.dataAt (m.task t).nDirectorio a = g.mem (g.space t) a

namespace Remembers

variable {m m' : Model} {live live' : Finset Slot} {g : Memories} {new : Slot} {d : DirIx}

theorem congr (h : Remembers m live g) (hsub : live' ⊆ live)
    (hdir : ∀ t, (m'.task t).nDirectorio = (m.task t).nDirectorio)
    (hbytes : ∀ t ∈ live', (m.task t).nDirectorio ≠ 0 → ∀ a, DataAddr a →
      m'.mm.dataAt (m.task t).nDirectorio a = m.mm.dataAt (m.task t).nDirectorio a)
    : Remembers m' live' g where
  same t ht u hu hdt hdu := by
    rw [hdir] at hdt hdu ⊢
    rw [hdir]
    exact h.same t (hsub ht) u (hsub hu) hdt hdu
  lt t ht := h.lt t (hsub ht)
  bytes t ht hdt a ha := by
    rw [hdir] at hdt ⊢
    rw [hbytes t ht hdt a ha]
    exact h.bytes t (hsub ht) hdt a ha

theorem dataAt_created (hp : Population m live) (hnew : Created m m' new d) {t : Slot}
    (ht : t ∈ live) (hdt : (m.task t).nDirectorio ≠ 0) {a : Addr} (ha : DataAddr a)
    : m'.mm.dataAt (m.task t).nDirectorio a = m.mm.dataAt (m.task t).nDirectorio a :=
  hnew.pages.dataAt_eq ha ⟨hdt, hp.refs_ne_zero ht⟩

theorem ne_new (hp : Population m live) (hnew : Created m m' new d) {t : Slot} (ht : t ∈ live)
    : t ≠ new := by
  rintro rfl
  exact (hp.free t).mp (List.mem_of_mem_head? hnew.free) ht

theorem fork (h : Remembers m live g) (hp : Population m live) (hcurrent : m.current ∈ live)
    (hidle : (m.task m.current).nDirectorio ≠ 0) (hnew : Created m m' new d) (hd : m.refsDIR d = 0)
    (hdata : ∀ a, DataAddr a → m'.mm.dataAt d a = m.mm.dataAt (m.task m.current).nDirectorio a)
    : Remembers m' (insert new live) (g.fork m.current new) := by
  have hother : ∀ t ∈ live, t ≠ new := fun t ht => ne_new hp hnew ht
  have hdir : ∀ t ∈ live, (m.task t).nDirectorio ≠ d := by
    rintro t ht rfl
    exact hp.refs_ne_zero ht hd
  have hspace : ∀ t ∈ live, (g.fork m.current new).space t = g.space t :=
    fun t ht => if_neg (hother t ht)
  have hfresh : (g.fork m.current new).space new = g.next := if_pos rfl
  constructor
  . intro t ht u hu hdt hdu
    rcases Finset.mem_insert.mp ht with rfl | ht'
    . rcases Finset.mem_insert.mp hu with rfl | hu'
      . simp
      . rw [hfresh, hspace u hu', hnew.new_dir, hnew.dir u (hother u hu')]
        have := h.lt u hu'
        have := hdir u hu'
        constructor
        . omega
        . exact fun heq => absurd heq.symm this
    . rw [hnew.dir t (hother t ht')] at hdt ⊢
      rcases Finset.mem_insert.mp hu with rfl | hu'
      . rw [hfresh, hspace t ht', hnew.new_dir]
        have := h.lt t ht'
        have := hdir t ht'
        constructor
        . omega
        . exact fun heq => absurd heq this
      . rw [hnew.dir u (hother u hu')] at hdu ⊢
        rw [hspace t ht', hspace u hu']
        exact h.same t ht' u hu' hdt hdu
  . intro t ht
    change _ < g.next + 1
    rcases Finset.mem_insert.mp ht with rfl | ht'
    . rw [hfresh]
      omega
    . have := h.lt t ht'
      rw [hspace t ht']
      omega
  . intro t ht hdt a ha
    rcases Finset.mem_insert.mp ht with rfl | ht'
    . rw [hfresh, hnew.new_dir, hdata a ha, h.bytes _ hcurrent hidle a ha]
      exact congrFun (if_pos rfl).symm a
    . rw [hnew.dir t (hother t ht')] at hdt ⊢
      rw [hspace t ht', dataAt_created hp hnew ht' hdt ha, h.bytes t ht' hdt a ha]
      have := h.lt t ht'
      exact congrFun (if_neg (by omega)).symm a

theorem clone (h : Remembers m live g) (hp : Population m live) (hcurrent : m.current ∈ live)
    (hidle : (m.task m.current).nDirectorio ≠ 0)
    (hnew : Created m m' new (m.task m.current).nDirectorio)
    : Remembers m' (insert new live) (g.clone m.current new) := by
  have hother : ∀ t ∈ live, t ≠ new := fun t ht => ne_new hp hnew ht
  have hspace : ∀ t ∈ live, (g.clone m.current new).space t = g.space t :=
    fun t ht => if_neg (hother t ht)
  have hshared : (g.clone m.current new).space new = g.space m.current := if_pos rfl
  constructor
  . intro t ht u hu hdt hdu
    rcases Finset.mem_insert.mp ht with rfl | ht'
    . rcases Finset.mem_insert.mp hu with rfl | hu'
      . simp
      . rw [hnew.dir u (hother u hu')] at hdu ⊢
        rw [hshared, hspace u hu', hnew.new_dir]
        exact h.same _ hcurrent u hu' hidle hdu
    . rw [hnew.dir t (hother t ht')] at hdt ⊢
      rcases Finset.mem_insert.mp hu with rfl | hu'
      . rw [hshared, hspace t ht', hnew.new_dir]
        exact h.same t ht' _ hcurrent hdt hidle
      . rw [hnew.dir u (hother u hu')] at hdu ⊢
        rw [hspace t ht', hspace u hu']
        exact h.same t ht' u hu' hdt hdu
  . intro t ht
    rcases Finset.mem_insert.mp ht with rfl | ht'
    . rw [hshared]
      exact h.lt _ hcurrent
    . rw [hspace t ht']
      exact h.lt t ht'
  . intro t ht hdt a ha
    rcases Finset.mem_insert.mp ht with rfl | ht'
    . rw [hshared, hnew.new_dir, dataAt_created hp hnew hcurrent hidle ha]
      exact h.bytes _ hcurrent hidle a ha
    . rw [hnew.dir t (hother t ht')] at hdt ⊢
      rw [hspace t ht', dataAt_created hp hnew ht' hdt ha]
      exact h.bytes t ht' hdt a ha

theorem exit (h : Remembers m live g) (hp : Population m live) (hcurrent : m.current ∈ live)
    (hdir : ∀ t, (m'.task t).nDirectorio = (m.task t).nDirectorio)
    (hpages : Mm.SamePages (fun e _ => (m.task m.current).nDirectorio = e → m.refsDIR e ≠ 1)
      m.mm m'.mm) : Remembers m' (live.erase m.current) g := by
  apply h.congr (Finset.erase_subset _ _) hdir
  intro t ht _ a ha
  apply hpages.dataAt_eq ha
  intro heq hone
  have hrefs := hp.refs (m.task t).nDirectorio
  have hpair : ({t, m.current} : Finset Slot) ⊆
      members m.toKernel live (m.task t).nDirectorio := by
    intro u hu
    rw [Finset.mem_insert, Finset.mem_singleton] at hu
    rcases hu with rfl | rfl
    . exact Population.mem_members.mpr ⟨Finset.mem_of_mem_erase ht, rfl⟩
    . exact Population.mem_members.mpr ⟨hcurrent, heq⟩
  have hcard := Finset.card_le_card hpair
  rw [Finset.card_pair (Finset.ne_of_mem_erase ht)] at hcard
  rw [hone] at hrefs
  split at hrefs <;> omega

theorem store (h : Remembers m live g) (hp : Population m live) (hcurrent : m.current ∈ live)
    (hidle : (m.task m.current).nDirectorio ≠ 0)
    (hdir : ∀ t, (m'.task t).nDirectorio = (m.task t).nDirectorio) {a : Addr} {v : Byte}
    (ha : DataAddr a)
    (hmm : m'.mm = m.mm.setByte (m.mm.dataEntry (m.task m.current).nDirectorio
      (Mm.dataPage a)).pbaseAddr (a.toNat % pageSize) v)
    : Remembers m' live (g.store m.current a v) := by
  constructor
  . intro t ht u hu hdt hdu
    rw [hdir] at hdt hdu ⊢
    rw [hdir]
    exact h.same t ht u hu hdt hdu
  . exact h.lt
  . intro t ht hdt b hb
    rw [hdir] at hdt ⊢
    have hstored := hp.spaces.dataAt_setByte (v := v) ha hb ⟨hidle, hp.refs_ne_zero hcurrent⟩
      ⟨hdt, hp.refs_ne_zero ht⟩
    have hmem : (g.store m.current a v).mem (g.space t) b =
        if g.space t = g.space m.current ∧ b = a then v else g.mem (g.space t) b := rfl
    change _ = (g.store m.current a v).mem (g.space t) b
    rw [hmm, hstored, hmem, h.bytes t ht hdt b hb]
    simp only [h.same t ht _ hcurrent hdt hidle]

theorem step (h : Remembers m live g) (hp : Population m live) (hs : Settled m live) {event : Event}
    (hstep : LifeStep m m' live event live')
    : Remembers m' live'
        (g.after event m.toKernel m'.toKernel (m.seq .freequeue).head?) := by
  have hidle : m.current ≠ m.idleTask → (m.task m.current).nDirectorio ≠ 0 :=
    fun hne hzero => hne ((hp.idle_dir _ hs.live).mp hzero)
  cases hstep with
  | same hdir hpid hnext hmm hstore hexit =>
    have hsame : Remembers m' live g := by
      apply h.congr (Finset.Subset.refl _) hdir
      intro t _ _ a _
      rw [hmm]
    have hafter : g.after event m.toKernel m'.toKernel (m.seq .freequeue).head? = g := by
      cases event with
      | fork => exact if_pos hnext
      | clone function stack => exact if_pos hnext
      | store a v => exact absurd rfl (hstore a v)
      | _ => rfl
    rw [hafter]
    exact hsame
  | forked hnew hd hdata hne =>
    have hpid : m'.incrementalPID ≠ m.incrementalPID := by
      have := hnew.incrementalPID
      omega
    unfold Memories.after
    dsimp only
    rw [if_neg hpid, hnew.free]
    exact h.fork hp hs.live (hidle hne) hnew hd hdata
  | cloned hnew hne =>
    have hpid : m'.incrementalPID ≠ m.incrementalPID := by
      have := hnew.incrementalPID
      omega
    unfold Memories.after
    dsimp only
    rw [if_neg hpid, hnew.free]
    exact h.clone hp hs.live (hidle hne) hnew
  | exited hdir hpid hgone hnext hpages hne => exact h.exit hp hs.live hdir hpages
  | stored hdir hpid hnext ha hmm hne => exact h.store hp hs.live (hidle hne) hdir ha hmm

theorem boot {frames : Nat → Nat → Byte} {s : Sys} (hs : Zeos.boot frames = some s)
    : Remembers (.boot frames) liveBoot (.boot s) := by
  have hm := Populated.boot hs
  have hkernel := hm.refines.kernel
  have hfirst : ∀ t ∈ liveBoot, ((Model.boot frames).task t).nDirectorio ≠ 0 → t = 13 := by
    intro t ht hdt
    rcases eq_of_mem_liveBoot ht with rfl | rfl
    . rfl
    . exact absurd rfl hdt
  constructor
  . intro t ht u hu hdt hdu
    rw [hfirst t ht hdt, hfirst u hu hdu]
    simp
  . intro t ht
    exact Nat.one_pos
  . intro t ht hdt a ha
    have hload := hm.population.spaces.userLoad ha
      ⟨hdt, hm.population.refs_ne_zero ht⟩
    have hcr3 : (Model.boot frames).cr3 = 1 := rfl
    have hmem : (Memories.boot s).mem ((Memories.boot s).space t) a =
        ((Model.boot frames).mm.userLoad (Mm.getPT (Model.boot frames).cr3) a).getD 0 := by
      rw [← hkernel]
      rfl
    rw [hfirst t ht hdt] at hload ⊢
    have hdir : ((Model.boot frames).task 13).nDirectorio = 1 := rfl
    rw [hdir] at hload ⊢
    rw [hcr3, hload] at hmem
    exact hmem.symm

end Remembers

namespace Populated

variable {x y : Sys × Finset Slot × Memories} {m : Model}

theorem privateMemory (h : Populated (x.1, x.2.1) m) (hg : Remembers m x.2.1 x.2.2)
    : PrivateMemory x := by
  have hkernel : x.1.toKernel = m.toKernel := h.refines.kernel
  have hpt : ∀ t ∈ x.2.1, m.getPT t = Mm.getPT (m.task t).nDirectorio := by
    intro t ht
    unfold Kernel.getPT Kernel.getDIR
    rw [h.population.dir t ht]
  constructor
  . intro t ht hidle a ha
    rw [hkernel] at hidle ⊢
    have hown := h.population.owned_of_live ht hidle (Mm.dataPage a)
    rw [hpt t ht, h.population.spaces.userLoad ha hown, hg.bytes t ht hown.1 a ha]
  . intro t ht hidle p hp
    rw [hkernel] at hidle ⊢
    have hown := h.population.owned_of_live ht hidle p
    obtain ⟨f, hf, -, hused⟩ := h.population.spaces.mapped _ p hp hown
    rw [hpt t ht]
    change m.mm.physMem (m.mm.dataEntry (m.task t).nDirectorio p).pbaseAddr = _
    rw [hf]
    exact hused
  . rw [hkernel, hpt _ h.settled.live]
    exact h.population.getPT_cr3 h.settled.live

theorem step_memory (h : Populated (x.1, x.2.1) m) (hg : Remembers m x.2.1 x.2.2) {i : Input}
    (hlife : i.event.lifeCycle) (hsound : Sys.TakesSound i (x.1, x.2.1))
    (hstep : Sys.stepMemory i x = some y)
    : ∃ m', Populated (y.1, y.2.1) m' ∧ Remembers m' y.2.1 y.2.2 := by
  obtain ⟨hstep, hrecord⟩ := Run.ghost_eq_some.mp hstep
  have hlive : Sys.stepLive i (x.1, x.2.1) = some (y.1, y.2.1) := by
    rw [Sys.stepLive, Run.ghost_eq_some]
    exact ⟨hstep, congrArg Prod.fst hrecord⟩
  obtain ⟨m', -, hy, hlife'⟩ := h.step hlife hsound hlive
  refine ⟨m', hy, ?_⟩
  have hset : m.queues.shape .freequeue ≠ .unset := by
    rcases h.free_open with hopen | ⟨_, hopen⟩ <;> simp [hopen]
  have hmem := congrArg Prod.snd hrecord
  dsimp only at hmem
  rw [h.refines.firstTask_eq hset, h.refines.kernel, hy.refines.kernel] at hmem
  rw [hmem]
  exact hg.step h.population h.settled hlife'

end Populated

/--
As long as no fork or clone takes a PCB that is linked to itself.
-/
theorem always_privateMemory {frames : Nat → Nat → Byte} {s : Sys} (hs : boot frames = some s)
    {es : List Input} (hlife : ∀ i ∈ es, i.event.lifeCycle)
    (hsound : Run.Allowed Sys.stepMemory (fun i x => Sys.TakesSound i (x.1, x.2.1)) es
      (s, liveBoot, .boot s))
    : Run.Always Sys.stepMemory PrivateMemory es (s, liveBoot, .boot s) := by
  have hinv : Run.Always Sys.stepMemory
      (fun x => ∃ m, Populated (x.1, x.2.1) m ∧ Remembers m x.2.1 x.2.2) es
      (s, liveBoot, .boot s) := by
    apply Run.always_of_step (fun i x y hx hok hstep => ?_)
      ⟨_, .boot hs, .boot hs⟩ ((Run.allowed_of_forall fun i hi _ => hlife i hi).and hsound)
    obtain ⟨m, hm, hg⟩ := hx
    exact hm.step_memory hg hok.1 hok.2 hstep
  apply hinv.mono
  rintro x ⟨m, hm, hg⟩
  exact hm.privateMemory hg

theorem always_privateMemory_of_thread
    : ∃ s, boot (fun _ _ => 0) = some s ∧
        Run.Always Sys.stepMemory PrivateMemory
          (atRest [.store 0x108000 1, .clone 0x100000 0x109000, .resume, .exit, .resume,
            .store 0x108001 2, .clone 0x100000 0x10A000])
          (s, liveBoot, .boot s) := by
  have hsound : ∀ s ∈ boot (fun _ _ => 0), Run.Allowed Sys.stepMemory
      (fun i x => Sys.TakesSound i (x.1, x.2.1))
      (atRest [.store 0x108000 1, .clone 0x100000 0x109000, .resume, .exit, .resume,
        .store 0x108001 2, .clone 0x100000 0x10A000])
      (s, liveBoot, .boot s) := by
    decide +kernel
  obtain ⟨s, hs⟩ := exists_boot fun _ _ => 0
  exact ⟨s, hs, always_privateMemory hs (by decide) (hsound s hs)⟩

section Overwritten

/--
All PCBs become threads; the PCB of the first one to exit becomes a thread again. It stays the first of
`freequeue`, is taken a second time while that thread is alive, and the data pages go with it.
-/
def overwritingEvents : List Event :=
  resumed (List.replicate 13 cloneThread ++ [.exit, cloneThread] ++ List.replicate 14 .exit ++
    [cloneThread] ++ List.replicate 13 .exit)

/--
At the end a live process has no data pages.
-/
theorem not_privateMemory_of_overwriting
    : ∃ s x, boot (fun _ _ => 0) = some s ∧
        Run.run Sys.stepMemory (atRest overwritingEvents) (s, liveBoot, .boot s) = some x ∧
        ¬PrivateMemory x := by
  have hrun : ∀ s ∈ boot (fun _ _ => 0),
      ∃ x ∈ Run.run Sys.stepMemory (atRest overwritingEvents) (s, liveBoot, .boot s),
        x.1.current ∈ x.2.1 ∧ x.1.current ≠ x.1.idleTask ∧
          x.1.mm.userLoad (x.1.getPT x.1.current) 0x108000 = none := by
    decide +kernel
  obtain ⟨s, hs⟩ := exists_boot fun _ _ => 0
  obtain ⟨x, hx, hlive, hidle, hload⟩ := hrun s hs
  refine ⟨s, x, hs, hx, ?_⟩
  intro h
  have hdata : DataAddr 0x108000 := by
    unfold DataAddr
    decide
  have := h.loads _ hlive hidle _ hdata
  rw [hload] at this
  cases this

end Overwritten

end Zeos
