import Zeos.Lemmas.LifeCycle
import Zeos.Spec.GetStats

/-!
`sys_get_stats` and the PIDs.
-/

namespace Zeos

open Model

section StoreBytes

variable {m m' : Space} {dest a : Addr} {b : Byte} {bs : List Byte}

theorem storeBytes_cons (h : Kernel.storeBytes dest (b :: bs) m = some m')
    : ∃ m₁, ByteMem.store m dest b = some m₁ ∧ Kernel.storeBytes (dest + 1) bs m₁ = some m' :=
  Option.bind_eq_some_iff.mp h

theorem storeBytes_eq_some (h : ∀ i < bs.length, (m.translate (dest + BitVec.ofNat 32 i)).isSome)
    : ∃ m', Kernel.storeBytes dest bs m = some m' := by
  induction bs generalizing dest m with
  | nil => exact ⟨m, rfl⟩
  | cons b bs ih =>
    have hfirst := h 0 (by simp)
    rw [add_ofNat_zero] at hfirst
    obtain ⟨l, hl⟩ := Option.isSome_iff_exists.mp hfirst
    obtain ⟨m₁, hm₁⟩ : ∃ m₁, ByteMem.store m dest b = some m₁ := by
      rw [Space.store_eq, hl]
      exact ⟨_, rfl⟩
    have hrest : ∀ i < bs.length, (m₁.translate (dest + 1 + BitVec.ofNat 32 i)).isSome := by
      intro i hi
      rw [Space.translate_of_store hm₁, ← ofNat_succ]
      exact h (i + 1) (by simpa using hi)
    obtain ⟨m', hm'⟩ := ih hrest
    exact ⟨m', by rw [Kernel.storeBytes, hm₁]; exact hm'⟩

theorem translate_of_storeBytes (h : Kernel.storeBytes dest bs m = some m')
    : m'.translate = m.translate ∧ m'.pt = m.pt := by
  induction bs generalizing dest m with
  | nil =>
    cases h
    exact ⟨rfl, rfl⟩
  | cons b bs ih =>
    obtain ⟨m₁, hm₁, h⟩ := storeBytes_cons h
    obtain ⟨htr, hpt⟩ := ih h
    exact ⟨htr.trans (Space.translate_of_store hm₁), hpt.trans (Space.pt_of_store hm₁).1⟩

theorem load_of_storeBytes (h : Kernel.storeBytes dest bs m = some m')
    (ha : ∀ i < bs.length, m.translate a ≠ m.translate (dest + BitVec.ofNat 32 i))
    : ByteMem.load m' a = ByteMem.load m a := by
  induction bs generalizing dest m with
  | nil =>
    cases h
    rfl
  | cons b bs ih =>
    obtain ⟨m₁, hm₁, h⟩ := storeBytes_cons h
    rw [ih h, Space.load_of_store hm₁, if_neg]
    . have := ha 0 (by simp)
      rwa [add_ofNat_zero] at this
    . intro i hi
      have := ha (i + 1) (by simpa using hi)
      rw [Space.translate_of_store hm₁]
      rwa [ofNat_succ] at this

theorem load_storeBytes (h : Kernel.storeBytes dest bs m = some m')
    (hinj : ∀ i < bs.length, ∀ j < bs.length,
      m.translate (dest + BitVec.ofNat 32 i) = m.translate (dest + BitVec.ofNat 32 j) → i = j)
    {i : Nat} (hi : i < bs.length)
    : ByteMem.load m' (dest + BitVec.ofNat 32 i) = some bs[i] := by
  induction bs generalizing dest m i with
  | nil => cases hi
  | cons b bs ih =>
    obtain ⟨m₁, hm₁, h⟩ := storeBytes_cons h
    have htr := Space.translate_of_store hm₁
    cases i with
    | zero =>
      rw [add_ofNat_zero, load_of_storeBytes h, Space.load_of_store hm₁, if_pos rfl]
      . rfl
      . intro j hj heq
        rw [htr, ← ofNat_succ] at heq
        have := hinj 0 (by simp) (j + 1) (by simpa using hj) (by rwa [add_ofNat_zero])
        omega
    | succ i =>
      rw [ofNat_succ]
      apply ih h
      intro i hi j hj heq
      rw [htr, ← ofNat_succ, ← ofNat_succ] at heq
      have := hinj (i + 1) (by simpa using hi) (j + 1) (by simpa using hj) heq
      omega

end StoreBytes

theorem sub_lt_numPagCode {a : Addr} (ha : UserArea a) (hcode : a.toNat / pageSize < pagLogInitData)
    : a.toNat / pageSize - pagLogInitCode < numPagCode := by
  have := ha.1
  unfold pagLogInitData at hcode
  omega

namespace Population

variable {m : Model} {live : Finset Slot} {a b : Addr}

theorem translate_of_entry (h : Population m live) (hlive : m.current ∈ live) {e : PageTableEntry}
    (hpage : a.toNat / pageSize < totalPages)
    (he : m.mm.entry (m.task m.current).nDirectorio (a.toNat / pageSize) = e) (hpresent : e.present)
    : m.toKernel.currentSpace.translate a = some (e.pbaseAddr, a.toNat % pageSize) := by
  have htable : m.mm.pagusrTable (Mm.getPT m.cr3 + a.toNat / pageSize) = e := by
    rw [h.getPT_cr3 hlive]
    exact he
  unfold Space.translate Mm.entryOf Kernel.currentSpace
  rw [if_pos hpage, htable]
  simp [hpresent]

theorem translate_eq (h : Population m live) (hlive : m.current ∈ live)
    (hidle : m.current ≠ m.idleTask) (ha : UserArea a)
    : ∃ f, m.toKernel.currentSpace.translate a = some (f, a.toNat % pageSize) ∧
        ((a.toNat / pageSize < pagLogInitData ∧
            f = numPagKernel + 2 * (a.toNat / pageSize - pagLogInitCode)) ∨
          (DataAddr a ∧ Mm.InPool f ∧
            f = (m.mm.dataEntry (m.task m.current).nDirectorio (Mm.dataPage a)).pbaseAddr)) := by
  obtain ⟨hle, hlt⟩ := ha
  by_cases hcode : a.toNat / pageSize < pagLogInitData
  . have hi : a.toNat / pageSize - pagLogInitCode < numPagCode := by
      unfold pagLogInitData at hcode
      omega
    have hentry := h.code _ (h.owned_of_live hlive hidle 0) _ hi
    rw [Nat.add_sub_cancel' hle] at hentry
    refine ⟨_, h.translate_of_entry hlive ?_ hentry rfl, .inl ⟨hcode, rfl⟩⟩
    unfold pagLogInitData pagLogInitCode numPagCode totalPages at *
    omega
  . have hdata : DataAddr a := ⟨by omega, hlt⟩
    obtain ⟨f, hf, hpool, -⟩ := h.spaces.mapped _ _ (Mm.dataPage_lt hdata)
      (h.owned_of_live hlive hidle (Mm.dataPage a))
    have hentry : m.mm.entry (m.task m.current).nDirectorio (a.toNat / pageSize) = Mm.ssEntry f := by
      rw [← Mm.pagLogInitData_add_dataPage hdata]
      exact hf
    refine ⟨f, h.translate_of_entry hlive (Mm.page_lt_of_dataAddr hdata) hentry rfl, .inr ?_⟩
    exact ⟨hdata, hpool, by rw [hf]; rfl⟩

theorem translate_inj (h : Population m live) (hlive : m.current ∈ live)
    (hidle : m.current ≠ m.idleTask) (ha : UserArea a) (hb : UserArea b)
    (heq : m.toKernel.currentSpace.translate a = m.toKernel.currentSpace.translate b) : a = b := by
  obtain ⟨f, htra, hfa⟩ := h.translate_eq hlive hidle ha
  obtain ⟨g, htrb, hfb⟩ := h.translate_eq hlive hidle hb
  rw [htra, htrb, Option.some.injEq, Prod.mk.injEq] at heq
  obtain ⟨rfl, hoffset⟩ := heq
  apply Mm.eq_of_page_eq ?_ hoffset
  rcases hfa with ⟨hla, hfa⟩ | ⟨hda, hpa, hfa⟩ <;> rcases hfb with ⟨hlb, hfb⟩ | ⟨hdb, hpb, hfb⟩
  . have := ha.1
    have := hb.1
    omega
  . exfalso
    have hpool := hpb.2.1
    have hcode := sub_lt_numPagCode ha hla
    rw [hfa] at hpool
    omega
  . exfalso
    have hpool := hpa.2.1
    have hcode := sub_lt_numPagCode hb hlb
    rw [hfb] at hpool
    omega
  . have hown := h.owned_of_live hlive hidle
    obtain ⟨-, hpage⟩ := h.spaces.inj _ _ _ _ (Mm.dataPage_lt hda) (Mm.dataPage_lt hdb) (hown _)
      (hown _) (hfa.symm.trans hfb)
    rw [← Mm.pagLogInitData_add_dataPage hda, ← Mm.pagLogInitData_add_dataPage hdb, hpage]

end Population

section Call

variable {m : Model} {live : Finset Slot} {st : Addr} {pid : Int} {t : Slot}

theorem length_wordBytes (w : BitVec 32) : (Kernel.wordBytes w).length = 4 :=
  rfl

theorem length_statsBytes (s : Stats) : (Kernel.statsBytes s).length = 28 :=
  rfl

theorem userArea_add (haccess : accessOk .verifyWrite st Kernel.sizeofStats)
    (hend : st.toNat + 28 ≤ heapStart) {i : Nat} (hi : i < 28)
    : UserArea (st + BitVec.ofNat 32 i) ∧ (st + BitVec.ofNat 32 i).toNat = st.toNat + i := by
  have hstart : pagLogInitCode ≤ st.toNat / pageSize := by
    unfold accessOk at haccess
    dsimp only at haccess
    split at haccess
    next => cases haccess
    next =>
      split at haccess
      next hdata =>
        have := hdata.2.1
        omega
      next =>
        split at haccess
        next huser => exact huser.1
        next => cases haccess
  have hnat : (st + BitVec.ofNat 32 i).toNat = st.toNat + i := by
    rw [BitVec.toNat_add, BitVec.toNat_ofNat]
    unfold heapStart pagLogInitHeap pagLogInitData pagLogInitCode numPagCode numPagData pageSize at hend
    omega
  refine ⟨⟨?_, ?_⟩, hnat⟩
  . rw [hnat]
    exact hstart.trans (Nat.div_le_div_right (Nat.le_add_right _ _))
  . rw [hnat, Nat.div_lt_iff_lt_mul (by unfold pageSize; omega)]
    unfold heapStart at hend
    omega

theorem sysGetStats_of_mem (h : Population m live) (hlive : m.current ∈ live)
    (hidle : m.current ≠ m.idleTask) (hpid : 0 ≤ pid)
    (haccess : accessOk .verifyWrite st Kernel.sizeofStats) (hend : st.toNat + 28 ≤ heapStart)
    (ht : (m.task t).pid = pid) (honly : ∀ u, (m.task u).pid = pid → u = t)
    : ∃ k, m.sysGetStats pid st = some (0, k) ∧ StatsCopied m.toKernel k t st := by
  have hfind : (List.finRange nrTasks).find? (fun i => (m.task i).pid = pid) = some t := by
    cases hcase : (List.finRange nrTasks).find? (fun i => (m.task i).pid = pid) with
    | none =>
      rw [List.find?_eq_none] at hcase
      exact absurd ht (by simpa using hcase t (List.mem_finRange t))
    | some i => rw [honly i (by simpa using List.find?_some hcase)]
  have huser : ∀ i < 28, UserArea (st + BitVec.ofNat 32 i) :=
    fun i hi => (userArea_add haccess hend hi).1
  have hmapped : ∀ i < 28,
      (m.toKernel.currentSpace.translate (st + BitVec.ofNat 32 i)).isSome := by
    intro i hi
    obtain ⟨f, hf, -⟩ := h.translate_eq hlive hidle (huser i hi)
    rw [hf]
    rfl
  have hinj : ∀ i < 28, ∀ j < 28,
      m.toKernel.currentSpace.translate (st + BitVec.ofNat 32 i) =
        m.toKernel.currentSpace.translate (st + BitVec.ofNat 32 j) → i = j := by
    intro i hi j hj heq
    have haddr := h.translate_inj hlive hidle (huser i hi) (huser j hj) heq
    have hnat := congrArg BitVec.toNat haddr
    rw [(userArea_add haccess hend hi).2, (userArea_add haccess hend hj).2] at hnat
    omega
  have hlast : ∀ j, st + 24 + BitVec.ofNat 32 j = st + BitVec.ofNat 32 (24 + j) := by
    intro j
    rw [BitVec.ofNat_add, ← BitVec.add_assoc]
    rfl
  obtain ⟨m₁, hm₁⟩ : ∃ m₁, Kernel.storeBytes st (Kernel.statsBytes (m.task t).estadisticas)
      m.toKernel.currentSpace = some m₁ := storeBytes_eq_some hmapped
  obtain ⟨htr₁, hpt₁⟩ := translate_of_storeBytes hm₁
  obtain ⟨m₂, hm₂⟩ : ∃ m₂, Kernel.storeBytes (st + 24)
      (Kernel.wordBytes (BitVec.ofInt 32 m.qLeft)) m₁ = some m₂ := by
    apply storeBytes_eq_some
    intro j hj
    rw [length_wordBytes] at hj
    rw [htr₁, hlast]
    exact hmapped _ (by omega)
  obtain ⟨-, hpt₂⟩ := translate_of_storeBytes hm₂
  have hspace : Kernel.currentSpace { m.toKernel with mm := m₂.mm } = m₂ := by
    have hpt : m₂.pt = Mm.getPT m.cr3 := hpt₂.trans hpt₁
    unfold Kernel.currentSpace
    rw [← hpt]
  refine ⟨{ m.toKernel with mm := m₂.mm }, ?_, rfl, ?_, ?_, ?_⟩
  . unfold Kernel.sysGetStats
    rw [if_neg (by omega), if_neg (by simp [haccess]), hfind]
    dsimp only
    rw [show ({ mm := m.mm, pt := Mm.getPT m.cr3 } : Space) = m.toKernel.currentSpace
      from rfl, hm₁, Option.bind_eq_bind, Option.bind_some, hm₂]
    rfl
  . intro i hi
    rw [hspace, load_of_storeBytes hm₂, load_storeBytes hm₁ hinj (by rw [length_statsBytes]; omega),
      List.getElem?_eq_getElem]
    intro j hj
    rw [length_wordBytes] at hj
    rw [htr₁, hlast]
    intro heq
    have := hinj i (by omega) (24 + j) (by omega) heq
    omega
  . intro i hi
    rw [hspace, ← hlast, load_storeBytes hm₂ ?_ (by rwa [length_wordBytes]),
      List.getElem?_eq_getElem]
    intro i hi j hj heq
    rw [length_wordBytes] at hi hj
    rw [htr₁, hlast, hlast] at heq
    have := hinj (24 + i) (by omega) (24 + j) (by omega) heq
    omega
  . intro a ha hne
    have houtside : ∀ i < 28, m.toKernel.currentSpace.translate a ≠
        m.toKernel.currentSpace.translate (st + BitVec.ofNat 32 i) :=
      fun i hi heq => hne i hi (h.translate_inj hlive hidle ha (huser i hi) heq)
    rw [hspace, load_of_storeBytes hm₂, load_of_storeBytes hm₁ houtside]
    intro j hj
    rw [length_wordBytes] at hj
    rw [htr₁, hlast]
    exact houtside _ (by omega)

theorem sysGetStats_of_not_mem (k : Kernel) (hpid : 0 ≤ pid)
    (haccess : accessOk .verifyWrite st Kernel.sizeofStats) (hnone : ∀ t, (k.task t).pid ≠ pid)
    : k.sysGetStats pid st = some (-eSRCH, k) := by
  unfold Kernel.sysGetStats
  rw [if_neg (by omega), if_neg (by simp [haccess])]
  have hfind : (List.finRange nrTasks).find? (fun i => (k.task i).pid = pid) = none := by
    rw [List.find?_eq_none]
    intro i _
    simpa using hnone i
  rw [hfind]

end Call

structure Pids (m : Model) (live : Finset Slot) (pids : Finset Int) : Prop where
  gone : ∀ t ∉ live, (m.task t).pid = -1
  range : ∀ t ∈ live, 0 ≤ (m.task t).pid ∧ (m.task t).pid < m.incrementalPID
  inj : ∀ t ∈ live, ∀ u ∈ live, (m.task t).pid = (m.task u).pid → t = u
  mem : ∀ pid, pid ∈ pids ↔ ∃ t ∈ live, (m.task t).pid = pid
  next : 0 ≤ m.incrementalPID

namespace Pids

variable {m m' : Model} {live live' : Finset Slot} {pids : Finset Int} {new : Slot} {d : DirIx}

theorem congr (h : Pids m live pids) (hpid : ∀ t, (m'.task t).pid = (m.task t).pid)
    (hnext : m'.incrementalPID = m.incrementalPID) : Pids m' live pids := by
  constructor
  . simpa only [hpid] using h.gone
  . simpa only [hpid, hnext] using h.range
  . simpa only [hpid] using h.inj
  . simpa only [hpid] using h.mem
  . rw [hnext]
    exact h.next

theorem created (h : Pids m live pids) (hne : ∀ t ∈ live, t ≠ new) (hnew : Created m m' new d)
    : Pids m' (insert new live) (insert m.incrementalPID pids) := by
  have hpid : ∀ t ∈ live, (m'.task t).pid = (m.task t).pid := fun t ht => hnew.pid t (hne t ht)
  constructor
  . intro t ht
    rw [Finset.mem_insert, not_or] at ht
    rw [hnew.pid t ht.1]
    exact h.gone t ht.2
  . intro t ht
    have hnext := h.next
    rw [hnew.incrementalPID]
    rcases Finset.mem_insert.mp ht with rfl | ht
    . rw [hnew.new_pid]
      omega
    . have := h.range t ht
      rw [hpid t ht]
      omega
  . intro t ht u hu heq
    rw [Finset.mem_insert] at ht hu
    rcases ht with ht | ht <;> rcases hu with hu | hu
    . rw [ht, hu]
    . have := (h.range u hu).2
      rw [ht, hnew.new_pid, hpid u hu] at heq
      omega
    . have := (h.range t ht).2
      rw [hu, hnew.new_pid, hpid t ht] at heq
      omega
    . rw [hpid t ht, hpid u hu] at heq
      exact h.inj t ht u hu heq
  . intro pid
    rw [Finset.mem_insert, h.mem, Finset.exists_mem_insert, hnew.new_pid]
    constructor
    . rintro (rfl | ⟨t, ht, heq⟩)
      . exact .inl rfl
      . exact .inr ⟨t, ht, (hpid t ht).trans heq⟩
    . rintro (heq | ⟨t, ht, heq⟩)
      . exact .inl heq.symm
      . exact .inr ⟨t, ht, (hpid t ht).symm.trans heq⟩
  . have := h.next
    rw [hnew.incrementalPID]
    omega

theorem exited (h : Pids m live pids) (hcurrent : m.current ∈ live)
    (hpid : ∀ t ≠ m.current, (m'.task t).pid = (m.task t).pid)
    (hgone : (m'.task m.current).pid = -1) (hnext : m'.incrementalPID = m.incrementalPID)
    : Pids m' (live.erase m.current) (pids.erase (m.task m.current).pid) := by
  constructor
  . intro t ht
    by_cases heq : t = m.current
    . rw [heq]
      exact hgone
    . rw [hpid t heq]
      exact h.gone t (fun hmem => ht (Finset.mem_erase.mpr ⟨heq, hmem⟩))
  . intro t ht
    rw [hpid t (Finset.ne_of_mem_erase ht), hnext]
    exact h.range t (Finset.mem_of_mem_erase ht)
  . intro t ht u hu heq
    rw [hpid t (Finset.ne_of_mem_erase ht), hpid u (Finset.ne_of_mem_erase hu)] at heq
    exact h.inj t (Finset.mem_of_mem_erase ht) u (Finset.mem_of_mem_erase hu) heq
  . intro pid
    rw [Finset.mem_erase, h.mem]
    constructor
    . rintro ⟨hne, t, ht, rfl⟩
      have hcur : t ≠ m.current := fun heq => hne (by rw [heq])
      exact ⟨t, Finset.mem_erase.mpr ⟨hcur, ht⟩, hpid t hcur⟩
    . rintro ⟨t, ht, heq⟩
      rw [hpid t (Finset.ne_of_mem_erase ht)] at heq
      refine ⟨?_, t, Finset.mem_of_mem_erase ht, heq⟩
      rintro rfl
      exact Finset.ne_of_mem_erase ht (h.inj t (Finset.mem_of_mem_erase ht) _ hcurrent heq)
  . rw [hnext]
    exact h.next

theorem step (h : Pids m live pids) (hp : Population m live) (hcurrent : m.current ∈ live)
    {event : Event} (hstep : LifeStep m m' live event live')
    : Pids m' live' (pidsAfter event m.toKernel m'.toKernel pids) := by
  have hcreated : ∀ {new d}, Created m m' new d →
      m'.incrementalPID ≠ m.incrementalPID ∧ ∀ t ∈ live, t ≠ new := by
    intro new d hnew
    refine ⟨by have := hnew.incrementalPID; omega, ?_⟩
    rintro t ht rfl
    exact (hp.free t).mp (List.mem_of_mem_head? hnew.free) ht
  cases hstep with
  | same hdir hpid hnext hmm hstore hexit =>
    have hafter : pidsAfter event m.toKernel m'.toKernel pids = pids := by
      cases event with
      | fork => exact if_pos hnext
      | clone function stack => exact if_pos hnext
      | exit => exact absurd rfl hexit
      | _ => rfl
    rw [hafter]
    exact h.congr hpid hnext
  | forked hnew hd hdata hidle =>
    obtain ⟨hne, hother⟩ := hcreated hnew
    unfold pidsAfter
    dsimp only
    rw [if_neg hne]
    exact h.created hother hnew
  | cloned hnew hidle =>
    obtain ⟨hne, hother⟩ := hcreated hnew
    unfold pidsAfter
    dsimp only
    rw [if_neg hne]
    exact h.created hother hnew
  | exited hdir hpid hgone hnext hpages hidle => exact h.exited hcurrent hpid hgone hnext
  | stored hdir hpid hnext ha hmm hidle => exact h.congr hpid hnext

theorem boot (frames : Nat → Nat → Byte) : Pids (.boot frames) liveBoot {0, 1} := by
  have hpid : ∀ t, ((Model.boot frames).task t).pid =
      if t = 13 then 1 else if t = 14 then 0 else -1 := by
    intro t
    fin_cases t <;> rfl
  have hlive : ∀ t, t ∈ liveBoot ↔ t = 13 ∨ t = 14 := by
    intro t
    simp [liveBoot]
  constructor
  . intro t ht
    rw [hlive, not_or] at ht
    rw [hpid, if_neg ht.1, if_neg ht.2]
  . intro t ht
    have hnext : (Model.boot frames).incrementalPID = 2 := rfl
    rw [hpid, hnext]
    rcases (hlive t).mp ht with rfl | rfl <;> decide
  . intro t ht u hu heq
    rw [hpid, hpid] at heq
    rcases (hlive t).mp ht with rfl | rfl <;> rcases (hlive u).mp hu with rfl | rfl <;>
      first | rfl | exact absurd heq (by decide)
  . intro pid
    simp only [hlive, hpid, Finset.mem_insert, Finset.mem_singleton]
    constructor
    . rintro (rfl | rfl)
      . exact ⟨14, .inr rfl, rfl⟩
      . exact ⟨13, .inl rfl, rfl⟩
    . rintro ⟨t, rfl | rfl, rfl⟩
      . exact .inr rfl
      . exact .inl rfl
  . exact (by decide : (0 : Int) ≤ 2)

end Pids

namespace Populated

variable {x y : Sys × Finset Slot × Finset Int} {m : Model}

theorem answers (h : Populated (x.1, x.2.1) m) (hpids : Pids m x.2.1 x.2.2)
    (hidle : x.1.current ≠ x.1.idleTask) (readings : Readings) {pid : Int} {st : Addr}
    (hpid : 0 ≤ pid) (haccess : accessOk .verifyWrite st Kernel.sizeofStats)
    (hend : st.toNat + 28 ≤ heapStart) : Answers x readings pid st := by
  have hkernel : x.1.toKernel = m.toKernel := h.refines.kernel
  have hentered : Kernel.Entered m.toKernel (m.called readings) :=
    Kernel.entered_enter (Kernel.entered_readings readings)
  have hpop := h.population.entered hentered
  have hsame : ∀ t, ((m.called readings).task t).pid = (m.task t).pid := by
    intro t
    obtain ⟨_, ht⟩ := hentered.task t
    rw [ht]
  constructor
  . intro hmem
    obtain ⟨t, ht, rfl⟩ := (hpids.mem pid).mp hmem
    have honly : ∀ u, (m.task u).pid = (m.task t).pid → u = t := by
      intro u hu
      by_cases hlive : u ∈ x.2.1
      . exact hpids.inj u hlive t ht hu
      . have := hpids.gone u hlive
        omega
    rw [hkernel]
    refine ⟨t, ht, rfl, honly, ?_⟩
    rw [hkernel] at hidle
    refine sysGetStats_of_mem hpop h.settled.live hidle hpid haccess hend (hsame t) ?_
    intro u hu
    exact honly u ((hsame u).symm.trans hu)
  . intro hmem
    rw [hkernel]
    apply sysGetStats_of_not_mem _ hpid haccess
    intro t heq
    rw [hsame] at heq
    apply hmem
    by_cases hlive : t ∈ x.2.1
    . exact (hpids.mem pid).mpr ⟨t, hlive, heq⟩
    . have := hpids.gone t hlive
      omega

theorem step_pids (h : Populated (x.1, x.2.1) m) (hpids : Pids m x.2.1 x.2.2) {i : Input}
    (hlife : i.event.lifeCycle) (hsound : Sys.TakesSound i (x.1, x.2.1))
    (hstep : Sys.stepPids i x = some y)
    : ∃ m', Populated (y.1, y.2.1) m' ∧ Pids m' y.2.1 y.2.2 := by
  obtain ⟨hstep, hrecord⟩ := Run.ghost_eq_some.mp hstep
  have hlive : Sys.stepLive i (x.1, x.2.1) = some (y.1, y.2.1) := by
    rw [Sys.stepLive, Run.ghost_eq_some]
    exact ⟨hstep, congrArg Prod.fst hrecord⟩
  obtain ⟨m', -, hy, hlife'⟩ := h.step hlife hsound hlive
  refine ⟨m', hy, ?_⟩
  have hmem := congrArg Prod.snd hrecord
  dsimp only at hmem
  rw [h.refines.kernel, hy.refines.kernel] at hmem
  rw [hmem]
  exact hpids.step h.population h.settled.live hlife'

end Populated

/--
As long as no fork or clone takes a PCB that is linked to itself, and the statistics do not reach into
the heap.
-/
theorem always_answers {frames : Nat → Nat → Byte} {s : Sys} (hs : boot frames = some s)
    {es : List Input} (hlife : ∀ i ∈ es, i.event.lifeCycle)
    (hsound : Run.Allowed Sys.stepPids (fun i x => Sys.TakesSound i (x.1, x.2.1)) es
      (s, liveBoot, {0, 1}))
    {pid : Int} {st : Addr} (hpid : 0 ≤ pid) (haccess : accessOk .verifyWrite st Kernel.sizeofStats)
    (hend : st.toNat + 28 ≤ heapStart)
    : Run.Always Sys.stepPids
        (fun x => x.1.current ≠ x.1.idleTask → ∀ readings, Answers x readings pid st) es
        (s, liveBoot, {0, 1}) := by
  have hinv : Run.Always Sys.stepPids
      (fun x => ∃ m, Populated (x.1, x.2.1) m ∧ Pids m x.2.1 x.2.2) es (s, liveBoot, {0, 1}) := by
    apply Run.always_of_step (fun i x y hx hok hstep => ?_)
      ⟨_, .boot hs, .boot frames⟩ ((Run.allowed_of_forall fun i hi _ => hlife i hi).and hsound)
    obtain ⟨m, hm, hpids⟩ := hx
    exact hm.step_pids hpids hok.1 hok.2 hstep
  apply hinv.mono
  rintro x ⟨m, hm, hpids⟩ hidle readings
  exact hm.answers hpids hidle readings hpid haccess hend

theorem always_answers_of_thread
    : ∃ s, boot (fun _ _ => 0) = some s ∧
        Run.Always Sys.stepPids
          (fun x => x.1.current ≠ x.1.idleTask → ∀ readings, Answers x readings 1 0x108000)
          (atRest [.clone 0x100000 0x109000, .resume, .exit, .resume, .clone 0x100000 0x10A000])
          (s, liveBoot, {0, 1}) := by
  have hsound : ∀ s ∈ boot (fun _ _ => 0), Run.Allowed Sys.stepPids
      (fun i x => Sys.TakesSound i (x.1, x.2.1))
      (atRest [.clone 0x100000 0x109000, .resume, .exit, .resume, .clone 0x100000 0x10A000])
      (s, liveBoot, {0, 1}) := by
    decide +kernel
  obtain ⟨s, hs⟩ := exists_boot fun _ _ => 0
  exact ⟨s, hs, always_answers hs (by decide) (hsound s hs) (by decide) (by decide) (by decide)⟩

/--
The last PCB is taken by one thread, and then by another one while the first is alive, whose PID is gone.
-/
theorem not_answers_of_overwriting
    : ∃ s x, boot (fun _ _ => 0) = some s ∧
        Run.run Sys.stepPids
          (atRest (resumed (List.replicate 13 cloneThread ++ [.exit, cloneThread, cloneThread])))
          (s, liveBoot, {0, 1}) = some x ∧
        x.1.current ≠ x.1.idleTask ∧ accessOk .verifyWrite 0x108000 Kernel.sizeofStats ∧
        ¬Answers x .zero 15 0x108000 := by
  have hrun : ∀ s ∈ boot (fun _ _ => 0),
      ∃ x ∈ Run.run Sys.stepPids
          (atRest (resumed (List.replicate 13 cloneThread ++ [.exit, cloneThread, cloneThread])))
          (s, liveBoot, {0, 1}),
        x.1.current ≠ x.1.idleTask ∧ 15 ∈ x.2.2 ∧ ∀ t, (x.1.task t).pid ≠ 15 := by
    decide +kernel
  obtain ⟨s, hs⟩ := exists_boot fun _ _ => 0
  obtain ⟨x, hx, hidle, hmem, hnone⟩ := hrun s hs
  refine ⟨s, x, hs, hx, hidle, by decide, ?_⟩
  intro h
  obtain ⟨t, -, ht, -⟩ := h.live hmem
  exact hnone t ht

end Zeos
