import Zeos.Lemmas.Boot
import Zeos.Lemmas.UserMemory
import Zeos.Spec.Processes

/-!
Who uses which directory. In runs made of `sys_fork`, `sys_clone`, `sys_exit`, clock ticks and stores,
`refs_DIR` counts the live processes of each directory, up to the reference that the first two of them
leave behind, and the free PCBs are exactly those of no live process.
-/

namespace Zeos

open Model

structure SameSpaces (k k' : Kernel) : Prop where
  dirs : ∀ t, (k'.task t).dirPagesBaseAddr = (k.task t).dirPagesBaseAddr ∧
    (k'.task t).nDirectorio = (k.task t).nDirectorio
  cont : ∀ t, k'.cont t = k.cont t ∨ k'.cont t = .user
  idleTask : k'.idleTask = k.idleTask
  incrementalPID : k'.incrementalPID = k.incrementalPID
  refsDIR : k'.refsDIR = k.refsDIR
  mm : k'.mm = k.mm

namespace SameSpaces

variable {m : Model} {k k' k'' : Kernel} {t : Slot} {q : Queue}

theorem refl (k : Kernel) : SameSpaces k k :=
  ⟨fun _ => ⟨rfl, rfl⟩, fun _ => .inl rfl, rfl, rfl, rfl, rfl⟩

theorem trans (h : SameSpaces k k') (h' : SameSpaces k' k'') : SameSpaces k k'' where
  dirs t := ⟨(h'.dirs t).1.trans (h.dirs t).1, (h'.dirs t).2.trans (h.dirs t).2⟩
  cont t := by
    rcases h'.cont t with ht | ht
    . rw [ht]
      exact h.cont t
    . exact .inr ht
  idleTask := h'.idleTask.trans h.idleTask
  incrementalPID := h'.incrementalPID.trans h.incrementalPID
  refsDIR := h'.refsDIR.trans h.refsDIR
  mm := h'.mm.trans h.mm

theorem of_rescheduled (h : Rescheduled k k') : SameSpaces k k' where
  dirs t := by
    obtain ⟨_, _, ht⟩ := h.task t
    rw [ht]
    exact ⟨rfl, rfl⟩
  cont t := .inl (by rw [h.cont])
  idleTask := h.idleTask
  incrementalPID := h.incrementalPID
  refsDIR := h.refsDIR
  mm := h.mm

theorem of_entered (h : Kernel.Entered k k') : SameSpaces k k' where
  dirs t := by
    obtain ⟨_, ht⟩ := h.task t
    rw [ht]
    exact ⟨rfl, rfl⟩
  cont := h.cont
  idleTask := h.idleTask
  incrementalPID := h.incrementalPID
  refsDIR := h.refsDIR
  mm := h.mm

theorem setTask (t : Slot) (f : TaskStruct → TaskStruct)
    (hf : ∀ ts, (f ts).dirPagesBaseAddr = ts.dirPagesBaseAddr ∧ (f ts).nDirectorio = ts.nDirectorio)
    : SameSpaces k (k.setTask t f) where
  __ := refl k
  dirs u := by
    rw [Kernel.setTask_task]
    split
    next => exact hf _
    next => exact ⟨rfl, rfl⟩

theorem setCont_user (t : Slot) : SameSpaces k (k.setCont t .user) where
  __ := refl k
  cont u := by
    rw [Kernel.setCont_cont]
    split
    next => exact .inr rfl
    next => exact .inl rfl

theorem ret (r : Int) : SameSpaces m.toKernel (m.ret r).toKernel := by
  have heax : SameSpaces m.toKernel (m.setEax m.current r) := { refl m.toKernel with }
  exact heax.trans (setCont_user _)

theorem unblock (ts : List Slot) : SameSpaces m.toKernel (m.unblock ts).toKernel := by
  unfold Model.unblock
  induction ts generalizing m with
  | nil => exact refl _
  | cons t ts ih =>
    have hret : SameSpaces m.toKernel (m.mapKernel (Kernel.setSemRet t (-1))).toKernel := by
      rw [toKernel_mapKernel, Kernel.setSemRet]
      apply setTask
      simp
    exact (hret.trans (of_rescheduled (.updateProcessState t _))).trans ih

theorem semDestroy (nSem : Int) : SameSpaces m.toKernel (m.semDestroy nSem).2.toKernel := by
  unfold Model.semDestroy
  split
  next => exact refl _
  next =>
    split
    next => exact refl _
    next => exact { unblock (m := m) _ with }

theorem destroyOwned : SameSpaces m.toKernel m.destroyOwned.toKernel := by
  unfold Model.destroyOwned
  induction List.finRange nrSemaphores generalizing m with
  | nil => exact refl _
  | cons i is ih =>
    rw [List.foldl_cons]
    split
    next => exact (semDestroy _).trans ih
    next => exact ih

theorem exit : SameSpaces (m.mapKernel Kernel.releaseDIR).toKernel m.exit.toKernel := by
  have hretired : SameSpaces (m.mapKernel Kernel.releaseDIR).toKernel m.retired.destroyOwned.toKernel :=
    destroyOwned (m := m.retired)
  have hpid : SameSpaces m.retired.destroyOwned.toKernel
      (m.retired.destroyOwned.mapKernel Kernel.clearPid).toKernel := by
    rw [toKernel_mapKernel, Kernel.clearPid]
    apply setTask
    simp
  have hexited : SameSpaces (m.retired.destroyOwned.mapKernel Kernel.clearPid).toKernel
      m.exited.toKernel := by
    refine SameSpaces.trans ?_ (setCont_user _)
    apply setTask
    simp
  exact ((hretired.trans hpid).trans hexited).trans (of_rescheduled .schedNext)

end SameSpaces

def Owned (k : Kernel) (d : DirIx) (_p : Nat) : Prop :=
  d ≠ 0 ∧ k.refsDIR d ≠ 0

structure Population (m : Model) (live : Finset Slot) : Prop where
  dir : ∀ t ∈ live, (m.task t).dirPagesBaseAddr = (m.task t).nDirectorio
  refs : ∀ d, m.refsDIR d = (members m.toKernel live d).card + if d = 0 ∨ d = 1 then 1 else 0
  idle_dir : ∀ t ∈ live, (m.task t).nDirectorio = 0 ↔ t = m.idleTask
  free : ∀ t, t ∈ m.seq .freequeue ↔ t ∉ live
  ring : m.queues.shape .freequeue = .ring → ∃ t ∈ live, (m.task t).nDirectorio = 1
  cr3 : m.Cr3Current
  cont : ∀ t ∈ live, m.cont t = .user ∨ m.cont t = .cpuIdle
  spaces : m.mm.Spaces (Owned m.toKernel)
  code : m.mm.CodeMapped (fun d => Owned m.toKernel d 0)

namespace Population

variable {m m' : Model} {live : Finset Slot} {t : Slot} {d : DirIx}

theorem congr (h : Population m live) (hsame : SameSpaces m.toKernel m'.toKernel)
    (hkept : Kept .freequeue m m') (hcr3 : m'.Cr3Current) : Population m' live where
  dir t ht := by
    rw [(hsame.dirs t).1, (hsame.dirs t).2]
    exact h.dir t ht
  refs d := by
    have : members m'.toKernel live d = members m.toKernel live d := by
      unfold members
      simp only [(hsame.dirs _).2]
    rw [this, hsame.refsDIR]
    exact h.refs d
  idle_dir t ht := by
    rw [(hsame.dirs t).2, hsame.idleTask]
    exact h.idle_dir t ht
  free t := by
    rw [hkept.seq]
    exact h.free t
  ring hring := by
    rw [hkept.shape] at hring
    obtain ⟨t, ht, hdir⟩ := h.ring hring
    exact ⟨t, ht, by rw [(hsame.dirs t).2]; exact hdir⟩
  cr3 := hcr3
  cont t ht := by
    rcases hsame.cont t with hcont | hcont
    . rw [hcont]
      exact h.cont t ht
    . exact .inl hcont
  spaces := by
    have howned : Owned m'.toKernel = Owned m.toKernel := by
      unfold Owned
      rw [hsame.refsDIR]
    rw [howned, hsame.mm]
    exact h.spaces
  code := by
    have howned : Owned m'.toKernel = Owned m.toKernel := by
      unfold Owned
      rw [hsame.refsDIR]
    rw [howned, hsame.mm]
    exact h.code

theorem mem_members : t ∈ members m.toKernel live d ↔ t ∈ live ∧ (m.task t).nDirectorio = d := by
  simp [members]

theorem refs_ne_zero (h : Population m live) (ht : t ∈ live) : m.refsDIR (m.task t).nDirectorio ≠ 0 := by
  have hmem : t ∈ members m.toKernel live (m.task t).nDirectorio := mem_members.mpr ⟨ht, rfl⟩
  have hpos := Finset.card_pos.mpr ⟨t, hmem⟩
  rw [h.refs]
  split <;> omega

theorem card_live (h : Population m live) (hnodup : (m.seq .freequeue).Nodup)
    : live.card + (m.seq .freequeue).length = nrTasks := by
  have heq : (m.seq .freequeue).toFinset = liveᶜ := by
    ext t
    rw [List.mem_toFinset, h.free, Finset.mem_compl]
  rw [← List.toFinset_card_of_nodup hnodup, heq, Finset.card_add_card_compl, Fintype.card_fin]

theorem exists_free_dir (h : Population m live) (hnodup : (m.seq .freequeue).Nodup)
    (hne : m.seq .freequeue ≠ []) (htake : m.Takeable) (hidle : m.idleTask ∈ live)
    : ∃ d, m.refsDIR d = 0 := by
  by_contra hall
  have hcard := h.card_live hnodup
  have hpos := List.length_pos_iff.mpr hne
  have hmem : ∀ d, d ≠ 1 → d ∈ live.image fun t => (m.task t).nDirectorio := by
    intro d hd
    rw [Finset.mem_image]
    by_cases hzero : d = 0
    . exact ⟨_, hidle, by rw [hzero]; exact (h.idle_dir _ hidle).mpr rfl⟩
    . have hrefs := h.refs d
      rw [if_neg (by simp [hzero, hd])] at hrefs
      have hcard : 0 < (members m.toKernel live d).card := by
        have := not_exists.mp hall d
        omega
      obtain ⟨t, ht⟩ := Finset.card_pos.mp hcard
      exact ⟨t, mem_members.mp ht⟩
  have himage := Finset.card_image_le (s := live) (f := fun t => (m.task t).nDirectorio)
  rcases htake with hring | ⟨-, hlength⟩
  . obtain ⟨t, ht, hone⟩ := h.ring hring
    have hsub : Finset.univ ⊆ live.image fun t => (m.task t).nDirectorio := by
      intro d _
      by_cases hd : d = 1
      . exact Finset.mem_image.mpr ⟨t, ht, by rw [hd]; exact hone⟩
      . exact hmem d hd
    have hle := Finset.card_le_card hsub
    rw [Finset.card_univ, Fintype.card_fin] at hle
    omega
  . have hsub : Finset.univ.erase 1 ⊆ live.image fun t => (m.task t).nDirectorio :=
      fun d hd => hmem d (Finset.ne_of_mem_erase hd)
    have hle := Finset.card_le_card hsub
    rw [Finset.card_erase_of_mem (Finset.mem_univ _), Finset.card_univ, Fintype.card_fin] at hle
    omega

theorem refs_pos (h : Population m live) (hd : d = 0 ∨ d = 1) : m.refsDIR d ≠ 0 := by
  rw [h.refs, if_pos hd]
  omega

theorem owned_of_live (h : Population m live) (ht : t ∈ live) (hidle : t ≠ m.idleTask) (p : Nat)
    : Owned m.toKernel (m.task t).nDirectorio p :=
  ⟨fun hzero => hidle ((h.idle_dir t ht).mp hzero), h.refs_ne_zero ht⟩

structure Admits (m m' : Model) (new : Slot) (d : DirIx) : Prop where
  dirs : ∀ t ≠ new, (m'.task t).dirPagesBaseAddr = (m.task t).dirPagesBaseAddr ∧
    (m'.task t).nDirectorio = (m.task t).nDirectorio
  new_dirs : (m'.task new).dirPagesBaseAddr = d ∧ (m'.task new).nDirectorio = d
  refs : ∀ e, m'.refsDIR e = m.refsDIR e + if e = d then 1 else 0
  idleTask : m'.idleTask = m.idleTask
  seq : m'.seq .freequeue = (m.seq .freequeue).erase new
  shape : m'.queues.shape .freequeue = m.queues.shape .freequeue
  cr3 : m'.Cr3Current
  cont : ∀ t ≠ new, m'.cont t = m.cont t ∨ m'.cont t = .user
  new_cont : m'.cont new = .user

theorem members_enroll {new : Slot} (ha : Admits m m' new d) (hnew : new ∉ live) (e : DirIx)
    : members m'.toKernel (insert new live) e =
        if e = d then insert new (members m.toKernel live e) else members m.toKernel live e := by
  ext t
  by_cases ht : t = new
  . subst ht
    simp only [mem_members, Finset.mem_insert, true_or, true_and, ha.new_dirs.2]
    split
    next heq => simp [heq]
    next hne => simp [mem_members, hnew, Ne.symm hne]
  . have hdir : (m'.task t).nDirectorio = (m.task t).nDirectorio := (ha.dirs t ht).2
    split <;> simp [mem_members, ht, hdir]

theorem enroll (h : Population m live) (hnodup : (m.seq .freequeue).Nodup) {new : Slot}
    (hnew : new ∈ m.seq .freequeue) (ha : Admits m m' new d) (hd : d ≠ 0)
    (hidle : m.idleTask ∈ live)
    (hspaces : m'.mm.Spaces (fun e p => Owned m.toKernel e p ∨ e = d))
    (hcode : m'.mm.CodeMapped (fun e => Owned m.toKernel e 0 ∨ e = d))
    : Population m' (insert new live) := by
  have howned : ∀ e p, Owned m'.toKernel e p ↔ Owned m.toKernel e p ∨ e = d := by
    intro e p
    unfold Owned
    have hrefs := ha.refs e
    by_cases heq : e = d
    . rw [if_pos heq] at hrefs
      have hnonneg : 0 ≤ m.refsDIR e := by
        rw [h.refs]
        omega
      simp only [heq, or_true, iff_true]
      exact ⟨hd, by rw [← heq]; omega⟩
    . rw [if_neg heq, Int.add_zero] at hrefs
      simp [heq, hrefs]
  have hfree : new ∉ live := (h.free new).mp hnew
  have hne : ∀ t ∈ live, t ≠ new := fun t ht heq => hfree (heq ▸ ht)
  constructor
  . intro t ht
    rcases Finset.mem_insert.mp ht with rfl | ht
    . rw [ha.new_dirs.1, ha.new_dirs.2]
    . rw [(ha.dirs t (hne t ht)).1, (ha.dirs t (hne t ht)).2]
      exact h.dir t ht
  . intro e
    have hcard : new ∉ members m.toKernel live e := fun hmem => hfree (mem_members.mp hmem).1
    rw [ha.refs, h.refs, members_enroll ha hfree]
    by_cases heq : e = d
    . rw [if_pos heq, if_pos heq, Finset.card_insert_of_notMem hcard]
      push_cast
      omega
    . rw [if_neg heq, if_neg heq]
      omega
  . intro t ht
    rw [ha.idleTask]
    rcases Finset.mem_insert.mp ht with rfl | ht
    . rw [ha.new_dirs.2]
      exact ⟨fun hzero => absurd hzero hd, fun heq => absurd hidle (heq ▸ hfree)⟩
    . rw [(ha.dirs t (hne t ht)).2]
      exact h.idle_dir t ht
  . intro t
    rw [ha.seq, hnodup.mem_erase_iff, h.free, Finset.mem_insert, not_or]
  . intro hring
    obtain ⟨t, ht, hone⟩ := h.ring (ha.shape ▸ hring)
    refine ⟨t, by simp [ht], ?_⟩
    rw [(ha.dirs t (hne t ht)).2]
    exact hone
  . exact ha.cr3
  . intro t ht
    rcases Finset.mem_insert.mp ht with rfl | ht
    . exact .inl ha.new_cont
    . rcases ha.cont t (hne t ht) with hcont | hcont
      . rw [hcont]
        exact h.cont t ht
      . exact .inl hcont
  . apply hspaces.congr
    . exact fun e p _ => howned e p
    . intro _ _ _
      rfl
    . rfl
    . exact hspaces.guarded
  . exact fun e he => hcode e ((howned e 0).mp he)

theorem getPT_cr3 (h : Population m live) (hlive : m.current ∈ live)
    : Mm.getPT m.cr3 = Mm.getPT (m.task m.current).nDirectorio := by
  rw [h.cr3, Kernel.getDIR, h.dir _ hlive]

section Fork

def forked (m : Model) (new : Slot) (d : DirIx) (mm : Mm) : Model :=
  let m := m.takeCopy new
  let k := (m.setTask new fun ts => { ts with dirPagesBaseAddr := d, nDirectorio := d }).setRefs d 1
  (makeReady new
    (({ m with toKernel := { k with mm := mm } } : Model).mapKernel (Kernel.forkContext new))).2

/--
With a free PCB, `sys_fork` always finds a directory and memory enough.
-/
theorem fork_eq (h : Population m live) (hs : Settled m live) (hidle : m.current ≠ m.idleTask)
    {new : Slot} {ts : List Slot} (hcons : m.seq .freequeue = new :: ts) (htake : m.Takeable)
    : ∃ d mm, m.refsDIR d = 0 ∧ (∃ r, m.fork = some (r, forked m new d mm)) ∧
        mm.Spaces (fun x q => Owned m.toKernel x q ∨ x = d) ∧
        mm.CodeMapped (fun x => Owned m.toKernel x 0 ∨ x = d) ∧
        Mm.SamePages (Owned m.toKernel) m.mm mm ∧
        ∀ p < numPagData, ∀ o < pageSize,
          mm.dataByte d p o = m.mm.dataByte (m.task m.current).nDirectorio p o := by
  obtain ⟨d₀, hd₀⟩ := h.exists_free_dir (hs.placed.nodup _) (by simp [hcons]) htake
    hs.placed.idle_live
  have hcurrent : m.current ≠ new := by
    rintro heq
    have : new ∈ m.seq .freequeue := by simp [hcons]
    exact (h.free new).mp this (heq ▸ hs.live)
  obtain ⟨d, hd⟩ : ∃ d, (List.finRange nrTasks).find? (fun i => m.refsDIR i = 0) = some d := by
    rw [← Option.isSome_iff_exists, List.find?_isSome]
    exact ⟨d₀, List.mem_finRange d₀, by simpa using hd₀⟩
  have hzero : m.refsDIR d = 0 := by simpa using List.find?_some hd
  have hparent := h.owned_of_live hs.live hidle
  have hne : (m.task m.current).nDirectorio ≠ d := by
    rintro rfl
    exact h.refs_ne_zero hs.live hzero
  obtain ⟨mm, hdata, hspaces, hsame, hentries, hbytes⟩ :=
    h.spaces.inherit (fun p _ => hparent p) hne (fun p _ hown => hown.2 hzero)
  have hcode := h.code.inheritCode (hparent 0) hne
  refine ⟨d, mm, hzero, ?_, hspaces, ?_, hsame, hbytes⟩
  rotate_left
  . intro x hx i hi
    rw [hentries x _ (by unfold pagLogInitData; omega)]
    exact hcode x hx i hi
  have halloc : (m.takeCopy new).allocateDIR new = some
      (((m.takeCopy new).setTask new fun ts =>
        { ts with dirPagesBaseAddr := d, nDirectorio := d }).setRefs d 1) := by
    unfold Kernel.allocateDIR
    have hrefs : (m.takeCopy new).refsDIR = m.refsDIR := rfl
    rw [hrefs, hd, Option.map_some, hzero]
    rfl
  have hpages := Kernel.inheritPages_of
    (((m.takeCopy new).setTask new fun ts =>
      { ts with dirPagesBaseAddr := d, nDirectorio := d }).setRefs d 1)
    new (m.task m.current).nDirectorio d (h.cr3.trans (h.dir _ hs.live))
    (by simp [takeCopy, hcurrent, h.dir _ hs.live]) (by simp) hdata
  unfold Model.fork
  rw [hcons]
  dsimp only
  rw [halloc]
  dsimp only
  rw [hpages]
  exact ⟨_, rfl⟩

theorem admits_forked (h : Population m live) (hlive : m.current ∈ live) {new : Slot}
    (hnew : new ∈ m.seq .freequeue) (hd : m.refsDIR d = 0) (mm : Mm)
    : Admits m (forked m new d mm) new d := by
  have hne : m.current ≠ new := fun heq => (h.free new).mp hnew (heq ▸ hlive)
  constructor
  . intro t ht
    simp [forked, makeReady, takeCopy, ht]
  . simp [forked, makeReady, takeCopy]
  . intro e
    have heq : (forked m new d mm).refsDIR e = if e = d then 1 else m.refsDIR e := rfl
    rw [heq]
    split
    next hed =>
      rw [hed, hd]
      rfl
    next => omega
  . rfl
  . simp [forked, makeReady, takeCopy, seq]
  . simp [forked, makeReady, takeCopy]
  . simp [Kernel.Cr3Current, Kernel.getDIR, forked, makeReady, takeCopy, hne]
  . intro t ht
    simp [forked, makeReady, takeCopy, ht]
  . simp [forked, makeReady, takeCopy]

end Fork

section Clone

def cloned (m : Model) (new : Slot) : Model :=
  (makeReady new ((m.takeCopy new).mapKernel (Kernel.cloneContext new))).2

theorem admits_cloned (h : Population m live) (hlive : m.current ∈ live) {new : Slot}
    (hnew : new ∈ m.seq .freequeue)
    : Admits m (cloned m new) new (m.task m.current).nDirectorio := by
  have hne : m.current ≠ new := fun heq => (h.free new).mp hnew (heq ▸ hlive)
  constructor
  . intro t ht
    simp [cloned, makeReady, takeCopy, ht]
  . simp [cloned, makeReady, takeCopy, h.dir _ hlive]
  . intro e
    have heq : (cloned m new).refsDIR e =
        if e = (m.task m.current).nDirectorio then
          m.refsDIR (m.task m.current).nDirectorio + 1
        else m.refsDIR e := by
      simp [cloned, makeReady, takeCopy, Kernel.getDIRPosition, hne]
    rw [heq]
    split
    next hed => rw [hed]
    next => omega
  . rfl
  . simp [cloned, makeReady, takeCopy, seq]
  . simp [cloned, makeReady, takeCopy]
  . have hcr3 := h.cr3
    unfold Kernel.Cr3Current Kernel.getDIR at *
    simp [cloned, makeReady, takeCopy, hne, hcr3]
  . intro t ht
    simp [cloned, makeReady, takeCopy, ht]
  . simp [cloned, makeReady, takeCopy]

end Clone

section Exit

theorem releaseDIR_fields (h : Population m live) (hlive : m.current ∈ live)
    : (∀ e, (m.mapKernel Kernel.releaseDIR).refsDIR e =
          m.refsDIR e - if e = (m.task m.current).nDirectorio then 1 else 0) ∧
        (m.mapKernel Kernel.releaseDIR).mm =
          if m.refsDIR (m.task m.current).nDirectorio = 1 then
            Kernel.freeUserPages (Mm.getPT (m.task m.current).nDirectorio) m.mm
          else m.mm := by
  have hdir : m.getPT m.current = Mm.getPT (m.task m.current).nDirectorio := by
    unfold Kernel.getPT Kernel.getDIR
    rw [h.dir _ hlive]
  have hiff : m.refsDIR (m.task m.current).nDirectorio - 1 = 0 ↔
      m.refsDIR (m.task m.current).nDirectorio = 1 := by omega
  rw [toKernel_mapKernel]
  unfold Kernel.releaseDIR
  dsimp only
  constructor
  . intro e
    have hrefs : ∀ k : Kernel, (if m.refsDIR (m.task m.current).nDirectorio - 1 = 0 then
        { k with mm := Kernel.freeUserPages (k.getPT k.current) k.mm } else k).refsDIR =
          k.refsDIR := by
      intro k
      split <;> rfl
    simp only [Kernel.setRefs_refsDIR, if_true, Kernel.getDIRPosition, hrefs]
    split
    next heq => rw [heq]
    next => omega
  . simp only [Kernel.setRefs_refsDIR, if_true, Kernel.getDIRPosition, hiff]
    split
    next => exact congrArg (Kernel.freeUserPages · m.mm) hdir
    next => rfl

theorem members_erase (hlive : m.current ∈ live)
    (hdirs : ∀ t, (m'.task t).nDirectorio = (m.task t).nDirectorio) (e : DirIx)
    : ((members m'.toKernel (live.erase m.current) e).card : Int) =
        (members m.toKernel live e).card - if e = (m.task m.current).nDirectorio then 1 else 0 := by
  have heq : members m'.toKernel (live.erase m.current) e =
      (members m.toKernel live e).erase m.current := by
    ext t
    simp only [mem_members, Finset.mem_erase, hdirs, and_assoc]
  rw [heq]
  split
  next hed =>
    have hmem : m.current ∈ members m.toKernel live e := mem_members.mpr ⟨hlive, hed.symm⟩
    have hpos := Finset.card_pos.mpr ⟨_, hmem⟩
    rw [Finset.card_erase_of_mem hmem]
    omega
  next hed =>
    have hmem : m.current ∉ members m.toKernel live e := fun hmem => hed (mem_members.mp hmem).2.symm
    rw [Finset.erase_eq_of_notMem hmem]
    omega

theorem spaces_releaseDIR (h : Population m live) (hlive : m.current ∈ live)
    (hidle : m.current ≠ m.idleTask)
    : (m.mapKernel Kernel.releaseDIR).mm.Spaces (Owned (m.mapKernel Kernel.releaseDIR).toKernel) := by
  obtain ⟨hrefs, hmm⟩ := h.releaseDIR_fields hlive
  have howned := h.owned_of_live hlive hidle
  rw [hmm]
  split
  next hone =>
    have hfree := h.spaces.freeUserPages (fun p _ => howned p)
    apply hfree.congr
    . intro e p _
      unfold Owned
      rw [hrefs]
      by_cases heq : e = (m.task m.current).nDirectorio
      . simp [heq, hone]
      . simp [heq]
    . intro _ _ _
      rfl
    . rfl
    . exact hfree.guarded
  next hone =>
    apply h.spaces.congr
    . intro e p _
      unfold Owned
      rw [hrefs]
      by_cases heq : e = (m.task m.current).nDirectorio
      . rw [if_pos heq, heq]
        have := (howned p).2
        simp only [ne_eq, and_congr_right_iff]
        intro _
        omega
      . simp [heq]
    . intro _ _ _
      rfl
    . rfl
    . exact h.spaces.guarded

theorem code_releaseDIR (h : Population m live) (hlive : m.current ∈ live)
    (hidle : m.current ≠ m.idleTask)
    : (m.mapKernel Kernel.releaseDIR).mm.CodeMapped
        (fun d => Owned (m.mapKernel Kernel.releaseDIR).toKernel d 0) := by
  obtain ⟨hrefs, hmm⟩ := h.releaseDIR_fields hlive
  intro d hd i hi
  have hown : Owned m.toKernel d 0 := by
    refine ⟨hd.1, ?_⟩
    have hne := hd.2
    rw [hrefs] at hne
    split at hne
    next heq =>
      rw [heq]
      exact (h.owned_of_live hlive hidle 0).2
    next => omega
  rw [hmm]
  split
  next =>
    rw [Mm.entry_freeUserPages (by unfold pagLogInitData; omega)]
    exact h.code d hown i hi
  next => exact h.code d hown i hi

theorem exit (h : Population m live) (hs : Settled m live) (hidle : m.current ≠ m.idleTask)
    : Population m.exit (live.erase m.current) := by
  obtain ⟨hrefs, -⟩ := h.releaseDIR_fields hs.live
  obtain ⟨hseq, hshape⟩ := hs.freequeue_exit hidle
  have hsame : SameSpaces (m.mapKernel Kernel.releaseDIR).toKernel m.exit.toKernel := .exit
  have hspaces := h.spaces_releaseDIR hs.live hidle
  have hdirs : ∀ t, (m.exit.task t).dirPagesBaseAddr = (m.task t).dirPagesBaseAddr ∧
      (m.exit.task t).nDirectorio = (m.task t).nDirectorio := by
    intro t
    obtain ⟨hbase, hn⟩ := hsame.dirs t
    rw [toKernel_mapKernel, Kernel.task_releaseDIR] at hbase hn
    exact ⟨hbase, hn⟩
  have hidleTask : m.exit.idleTask = m.idleTask := by
    rw [hsame.idleTask, toKernel_mapKernel, Kernel.idleTask_releaseDIR]
  have hcont : ∀ t, m.exit.cont t = m.cont t ∨ m.exit.cont t = .user := by
    intro t
    have := hsame.cont t
    rwa [toKernel_mapKernel, Kernel.cont_releaseDIR] at this
  constructor
  . intro t ht
    rw [(hdirs t).1, (hdirs t).2]
    exact h.dir t (Finset.mem_of_mem_erase ht)
  . intro e
    have hmembers := members_erase hs.live (fun t => (hdirs t).2) e
    rw [hsame.refsDIR, hrefs, h.refs, hmembers]
    omega
  . intro t ht
    rw [(hdirs t).2, hidleTask]
    exact h.idle_dir t (Finset.mem_of_mem_erase ht)
  . intro t
    rw [hseq, List.mem_append, h.free, List.mem_singleton, Finset.mem_erase]
    by_cases heq : t = m.current
    . simp [heq]
    . simp [heq]
  . intro hring
    rw [hshape] at hring
    cases hcase : m.queues.shape .freequeue <;> rw [hcase] at hring <;> cases hring
  . exact cr3Current_schedNext
  . intro t ht
    rcases hcont t with hcont | hcont
    . rw [hcont]
      exact h.cont t (Finset.mem_of_mem_erase ht)
    . exact .inl hcont
  . have howned : Owned m.exit.toKernel = Owned (m.mapKernel Kernel.releaseDIR).toKernel := by
      unfold Owned
      rw [hsame.refsDIR]
    rw [howned, hsame.mm]
    exact hspaces
  . have howned : Owned m.exit.toKernel = Owned (m.mapKernel Kernel.releaseDIR).toKernel := by
      unfold Owned
      rw [hsame.refsDIR]
    rw [howned, hsame.mm]
    exact h.code_releaseDIR hs.live hidle

end Exit

section Step

theorem ret (h : Population m live) (r : Int) : Population (m.ret r) live := by
  apply h.congr (.ret r) (.mapKernel _)
  exact h.cr3

theorem entered (h : Population m live) {k : Kernel} (hk : Kernel.Entered m.toKernel k)
    : Population { m with toKernel := k } live := by
  have hkept : Kept .freequeue m { m with toKernel := k } := ⟨rfl, rfl⟩
  apply h.congr (.of_entered hk) hkept
  obtain ⟨_, ht⟩ := hk.task m.current
  have hcr3 := h.cr3
  unfold Kernel.Cr3Current Kernel.getDIR at *
  rw [hk.cr3, hk.current, ht, hcr3]

theorem entry (h : Population m live) {i : Input} {k : Kernel} (hk : m.entry i = some k)
    : Population { m with toKernel := k } live :=
  h.entered (Kernel.entered_of_entry hk)

theorem clockRutine (h : Population m live) (hs : Settled m live) : Population m.clockRutine live := by
  apply h.congr (.of_rescheduled .clockRutine) (.clockRutine hs (by simp))
  apply cr3Current_schedule
  exact h.cr3

theorem resume (h : Population m live) (hs : Settled m live) : Population m.resume live := by
  unfold Model.resume
  rcases h.cont _ hs.live with hcont | hcont
  . rw [hcont]
    have hsame : SameSpaces m.toKernel (m.mapKernel Kernel.leave).toKernel := by
      constructor <;> try rfl
      . intro t
        rw [toKernel_mapKernel, Kernel.leave_task]
        split
        next => exact ⟨rfl, rfl⟩
        next => exact ⟨rfl, rfl⟩
      . intro t
        exact .inl rfl
    apply h.congr hsame (.mapKernel _)
    have hcr3 := h.cr3
    unfold Kernel.Cr3Current Kernel.getDIR at *
    simp [hcr3]
  . rw [hcont]
    have hsame : SameSpaces m.toKernel
        (m.mapKernel fun k => { k with inKernel := false }).toKernel :=
      { SameSpaces.refl _ with }
    exact h.congr hsame (.mapKernel _) h.cr3

theorem userStore (h : Population m live) (hs : Settled m live) {a : Addr} {v : Byte} {k : Kernel}
    (hk : m.userStore a v = some k) : Population { m with toKernel := k } live := by
  obtain ⟨mm, hmm, rfl⟩ := Option.map_eq_some_iff.mp hk
  rw [h.getPT_cr3 hs.live] at hmm
  obtain ⟨-, rfl⟩ := h.spaces.userStore_eq_some hmm
  exact { h with spaces := h.spaces.setByte _ _, code := h.code }

end Step

end Population

end Zeos
