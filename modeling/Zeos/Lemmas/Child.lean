import Zeos.Spec.Child
import Zeos.Lemmas.Window

/-!
`sys_fork` gives the child no heap: it keeps what its page table had there before.
-/

namespace Zeos

namespace Mm

variable {mm mm' : Mm} {d e : DirIx} {f n : Nat}

theorem physMem_of_mem_nextFrames (h : f ∈ mm.nextFrames n) : mm.physMem f = .freeFrame := by
  induction n generalizing mm with
  | zero => cases h
  | succ n ih =>
    unfold nextFrames at h
    split at h
    next g mm' halloc =>
      obtain ⟨hfree, -, -, -, rfl⟩ := allocFrame_eq_some halloc
      rcases List.mem_cons.mp h with rfl | h
      . exact hfree
      . have hrest := ih h
        rw [physMem_setPhysMem] at hrest
        split at hrest
        next => cases hrest
        next => exact hrest
    next => cases h

theorem nextFrames_congr (h : mm'.physMem = mm.physMem) : mm'.nextFrames n = mm.nextFrames n := by
  induction n generalizing mm mm' with
  | zero => rfl
  | succ n ih =>
    have hfst := allocFrame_congr h
    unfold nextFrames
    split
    next f mm₁ halloc =>
      split
      next g mm₂ halloc' =>
        rw [halloc, halloc'] at hfst
        cases hfst
        obtain ⟨-, -, -, -, rfl⟩ := allocFrame_eq_some halloc
        obtain ⟨-, -, -, -, rfl⟩ := allocFrame_eq_some halloc'
        rw [ih]
        funext g
        rw [physMem_setPhysMem, physMem_setPhysMem, h]
      next halloc' =>
        rw [halloc, halloc'] at hfst
        cases hfst
    next halloc =>
      split
      next g mm₂ halloc' =>
        rw [halloc, halloc'] at hfst
        cases hfst
      next => rfl

theorem nextFrames_succ (h : mm.allocFrame = (some f, mm.setPhysMem f .usedFrame))
    : mm.nextFrames (n + 1) = f :: (mm.setPhysMem f .usedFrame).nextFrames n := by
  rw [nextFrames, h]

theorem entry_inheritPage_child {p : Nat} (hp : p < numPagData) (hde : e ≠ d) {page : Nat}
    (hpage : page < totalPages)
    : (mm.inheritPage e d p f).entry d page =
        if page = pagLogInitData + p then ssEntry f else mm.entry d page := by
  apply (entry_setEntry hpage (window_lt hp)).trans
  rw [if_neg (fun heq => hde heq.1.symm)]
  apply (entry_setEntry hpage (window_lt hp)).trans
  rw [if_neg (fun heq => hde heq.1.symm)]
  apply (entry_setEntry hpage (pagLogInitData_add_lt hp)).trans
  by_cases hdata : page = pagLogInitData + p
  . rw [if_pos ⟨rfl, hdata⟩, if_pos hdata]
    rfl
  . rw [if_neg (fun heq => hdata heq.2), if_neg hdata, entry_setPhysMem]

/--
The last `n` data pages of directory `e` have been copied to the frames `fs`, which directory `d` has
for its own. Nothing else has changed for `d`.
-/
structure CopiesData (e d : DirIx) (n : Nat) (fs : List Nat) (mm mm' : Mm) : Prop where
  length : fs.length = n
  mapped : ∀ i f, fs[i]? = some f →
    mm'.entry d (pagLogInitData + (numPagData - n + i)) = ssEntry f
  copied : ∀ i f, fs[i]? = some f → ∀ o < pageSize,
    mm'.frames f o = mm.frames (mm.dataEntry e (numPagData - n + i)).pbaseAddr o
  entries : ∀ page < totalPages,
    page < pagLogInitData + (numPagData - n) ∨ pagLogInitHeap ≤ page →
      mm'.entry d page = mm.entry d page
  frames : ∀ g, g ∉ fs → mm'.frames g = mm.frames g
  used : ∀ g, mm.physMem g = .usedFrame → mm'.physMem g = .usedFrame

theorem CopiesData.cons {fs : List Nat} (hde : e ≠ d) (hn : n + 1 ≤ numPagData) (hused : mm.MapsUsed e)
    (hmapped : ∀ q, numPagData - (n + 1) ≤ q → q < numPagData → (mm.dataEntry e q).present)
    (hfree : mm.physMem f = .freeFrame) (hnot : f ∉ fs)
    (h : CopiesData e d n fs (mm.inheritPage e d (numPagData - (n + 1)) f) mm')
    : CopiesData e d (n + 1) (f :: fs) mm mm' := by
  have hp : numPagData - (n + 1) < numPagData := by omega
  have hround : ∀ i, numPagData - n + i = numPagData - (n + 1) + (i + 1) := by
    intro i
    omega
  constructor
  . rw [List.length_cons, h.length]
  . intro i g hi
    cases i with
    | zero =>
      cases hi
      rw [Nat.add_zero, h.entries _ (pagLogInitData_add_lt hp) (by omega),
        entry_inheritPage_child hp hde (pagLogInitData_add_lt hp), if_pos rfl]
    | succ i =>
      rw [List.getElem?_cons_succ] at hi
      rw [← hround i]
      exact h.mapped i g hi
  . intro i g hi o ho
    cases i with
    | zero =>
      cases hi
      rw [h.frames f hnot, frames_inheritPage, if_pos ⟨rfl, ho⟩]
      rfl
    | succ i =>
      rw [List.getElem?_cons_succ] at hi
      have hlt : i < n := by
        rw [← h.length]
        exact (List.getElem?_eq_some_iff.mp hi).1
      have hq : numPagData - (n + 1) + (i + 1) < numPagData := by omega
      have hne := hused.ne_of_free (pagLogInitData_add_lt hq) (hmapped _ (by omega) hq) hfree
      have := h.copied i g hi o ho
      rw [hround, dataEntry_inheritPage hp hq, if_neg (fun heq => hde heq.1),
        frames_inheritPage, if_neg (fun heq => hne heq.1)] at this
      exact this
  . intro page hpage hout
    have hheap : pagLogInitHeap = pagLogInitData + numPagData := rfl
    rw [h.entries page hpage (by omega), entry_inheritPage_child hp hde hpage, if_neg (by omega)]
  . intro g hg
    rw [List.mem_cons, not_or] at hg
    rw [h.frames g hg.2]
    funext o
    rw [frames_inheritPage, if_neg (fun heq => hg.1 heq.1)]
  . intro g hg
    apply h.used
    show (mm.setPhysMem f .usedFrame).physMem g = _
    rw [physMem_setPhysMem]
    split
    next => rfl
    next => exact hg

theorem inheritData_child (hde : e ≠ d) (hn : n ≤ numPagData) (hused : mm.MapsUsed e)
    {framesNew : List Nat}
    (h : Kernel.inheritData (getPT e) (getPT d) (getPT e) n framesNew mm = some (true, mm'))
    : CopiesData e d n (mm.nextFrames n) mm mm' ∧
        ∀ q, numPagData - n ≤ q → q < numPagData → (mm.dataEntry e q).present := by
  induction n generalizing mm framesNew with
  | zero =>
    cases h
    constructor
    . exact ⟨rfl, nofun, nofun, fun _ _ _ => rfl, fun _ _ => rfl, fun _ hg => hg⟩
    . intro q hle hlt
      omega
  | succ n ih =>
    rcases inheritData_succ_eq_some hde hn hused h with ⟨-, hnot, -⟩ | ⟨f, halloc, hpresent, h⟩
    . cases hnot
    . have hp : numPagData - (n + 1) < numPagData := by omega
      obtain ⟨-, hfree, -⟩ := freeFrames_of_allocFrame halloc
      obtain ⟨hrest, hmapped⟩ := ih (by omega) (hused.inheritPage hp hde) h
      have hmapped' : ∀ q, numPagData - (n + 1) ≤ q → q < numPagData → (mm.dataEntry e q).present := by
        intro q hle hlt
        by_cases hq : q = numPagData - (n + 1)
        . rw [hq]
          exact hpresent
        . have := hmapped q (by omega) hlt
          rwa [dataEntry_inheritPage hp hlt, if_neg (fun heq => hde heq.1)] at this
      have hnext : (mm.inheritPage e d (numPagData - (n + 1)) f).nextFrames n =
          (mm.setPhysMem f .usedFrame).nextFrames n := nextFrames_congr rfl
      rw [hnext] at hrest
      refine ⟨?_, hmapped'⟩
      rw [nextFrames_succ halloc]
      apply hrest.cons hde hn hused hmapped' hfree
      intro hmem
      have := physMem_of_mem_nextFrames hmem
      rw [physMem_setPhysMem, if_pos rfl] at this
      cases this

theorem load_pageAddr {page o : Nat} (hpage : page < totalPages) (ho : o < pageSize)
    : mm.load (getPT d) (pageAddr page o) =
        if (mm.entry d page).present then some (mm.frames (mm.entry d page).pbaseAddr o) else none := by
  obtain ⟨hof, hmod⟩ := entryOf_pageAddr mm (getPT d) hpage ho
  unfold load
  rw [hof, hmod]
  unfold entry
  split
  next => rfl
  next => rfl

theorem load_past (a : Addr) (ha : totalPages ≤ a.toNat / pageSize) (pt : Nat) : mm.load pt a = none := by
  unfold load entryOf
  rw [if_neg (by omega)]
  rfl

theorem inheritData_enough_iff (hde : e ≠ d) (hn : n ≤ numPagData) (hused : mm.MapsUsed e)
    {framesNew : List Nat} {enough : Bool}
    (h : Kernel.inheritData (getPT e) (getPT d) (getPT e) n framesNew mm = some (enough, mm'))
    : enough = true ↔ n ≤ mm.freeFrames := by
  induction n generalizing mm framesNew with
  | zero =>
    cases h
    simp
  | succ n ih =>
    rcases inheritData_succ_eq_some hde hn hused h with ⟨hfull, rfl, -⟩ | ⟨f, halloc, -, h⟩
    . rw [freeFrames_eq_zero_iff.mpr hfull]
      simp
    . obtain ⟨-, -, hcount⟩ := freeFrames_of_allocFrame halloc
      have hrest : (mm.inheritPage e d (numPagData - (n + 1)) f).freeFrames =
          (mm.setPhysMem f .usedFrame).freeFrames := rfl
      rw [ih (by omega) (hused.inheritPage (by omega) hde) h, hrest, hcount, Nat.add_le_add_iff_right]

end Mm

namespace Sys

variable {s s' : Sys} {new : Slot} {d : DirIx} {r : Int}

structure ChildTable (s s' : Sys) (d : DirIx) : Prop where
  code : ∀ page, pagLogInitCode ≤ page → page < pagLogInitData →
    s'.mm.entry d page = s.heapEntry page
  data : ∀ p < numPagData, ∃ f, (s.mm.nextFrames numPagData)[p]? = some f ∧
    s'.mm.entry d (pagLogInitData + p) = Mm.ssEntry f ∧
      ∀ o < pageSize, s'.mm.frames f o = s.ownByte (pagLogInitData + p) o
  heap : ∀ page < totalPages, pagLogInitHeap ≤ page → s'.mm.entry d page = s.mm.entry d page
  bytes : ∀ f, ∀ o < pageSize, s'.mm.frames f o = s.byteAfterCopy f o
  parent : ∀ p < numPagData, (s.heapEntry (pagLogInitData + p)).present

theorem nextDIR_of_allocateDIR {k k' : Kernel} (h : k.allocateDIR new = some k')
    : k.nextDIR = some (k'.getDIR new) := by
  obtain ⟨d, hd, rfl⟩ := Option.map_eq_some_iff.mp h
  unfold Kernel.nextDIR
  rw [hd]
  simp [Kernel.getDIR]

theorem childTable_of_copiesData (h : s.KeepsParent) (hde : s.getDIR s.current ≠ d)
    (hdata : Mm.CopiesData (s.getDIR s.current) d numPagData
      ((Kernel.inheritCode (Mm.getPT d) (Mm.getPT (s.getDIR s.current)) s.mm).nextFrames numPagData)
      (Kernel.inheritCode (Mm.getPT d) (Mm.getPT (s.getDIR s.current)) s.mm) s'.mm)
    (hmapped : ∀ p < numPagData, (s.heapEntry (pagLogInitData + p)).present) : ChildTable s s' d := by
  obtain ⟨hframes₀, hphys₀⟩ := Mm.memory_inheritCode d (s.getDIR s.current) s.mm
  obtain ⟨hparent₀, -⟩ := h.inheritCode hde
  rw [Mm.nextFrames_congr hphys₀] at hdata
  have hcopied : ∀ p f, (s.mm.nextFrames numPagData)[p]? = some f → ∀ o < pageSize,
      s'.mm.frames f o = s.ownByte (pagLogInitData + p) o := by
    intro p f hf o ho
    have hp : p < numPagData := by
      rw [← hdata.length]
      exact (List.getElem?_eq_some_iff.mp hf).1
    rw [hdata.copied p f hf o ho, hframes₀, Nat.sub_self, Nat.zero_add, Mm.dataEntry,
      hparent₀ _ (Mm.pagLogInitData_add_lt hp)]
    rfl
  refine ⟨?_, ?_, ?_, ?_, hmapped⟩
  . intro page hle hlt
    have hpage := hlt.trans Mm.pagLogInitData_lt
    rw [hdata.entries page hpage (by omega), Mm.entry_inheritCode hde hpage, if_pos]
    . rfl
    . refine ⟨rfl, .inr (List.mem_map.mpr ⟨page - pagLogInitCode, ?_, by omega⟩)⟩
      rw [List.mem_range]
      unfold pagLogInitData at hlt
      omega
  . intro p hp
    have hlt : p < (s.mm.nextFrames numPagData).length := by rwa [hdata.length]
    have hf := List.getElem?_eq_getElem hlt
    have hentry := hdata.mapped p _ hf
    rw [Nat.sub_self, Nat.zero_add] at hentry
    exact ⟨_, hf, hentry, hcopied p _ hf⟩
  . intro page hpage hle
    rw [hdata.entries page hpage (.inr hle), Mm.entry_inheritCode hde hpage, if_neg]
    rintro ⟨-, hmem | hmem⟩
    . have := Mm.kernelPages_lt hmem
      unfold pagLogInitHeap at hle
      omega
    . have := Mm.codePages_lt hmem
      unfold pagLogInitHeap at hle
      omega
  . intro f o ho
    unfold Kernel.byteAfterCopy
    split
    next p hp =>
      obtain ⟨hlt, hget, -⟩ := List.idxOf?_eq_some_iff.mp hp
      exact hcopied p f (by rw [List.getElem?_eq_getElem hlt, hget]) o ho
    next hnot =>
      rw [hdata.frames f (List.idxOf?_eq_none_iff.mp hnot), hframes₀]

theorem sysFork_child (h : s.KeepsParent) (hfork : s.sysFork = some (r, s')) (hr : 0 ≤ r)
    (hnew : firstTask .freequeue s.links = some new)
    : ∃ d, s.nextDIR = some d ∧ s'.getPT new = Mm.getPT d ∧ ChildTable s s' d := by
  cases sysFork_end hfork with
  | noSlot => cases hr
  | noDIR => cases hr
  | noFrame => cases hr
  | @created _ _ k _ _ _ htake hdir hpages hready =>
    obtain ⟨hde, -⟩ := allocateDIR_child h htake hdir
    obtain ⟨mm, hdata, rfl⟩ := inheritPages_eq_some h htake hdir hpages
    obtain ⟨hfirst, hkernel⟩ := takeFree_eq_some htake
    rw [hnew] at hfirst
    cases hfirst
    have hs' := toKernel_makeReady hready
    obtain ⟨hentry₀, hused₀⟩ := h.inheritCode hde
    obtain ⟨hcopies, hmapped⟩ := Mm.inheritData_child hde le_rfl hused₀ hdata
    refine ⟨k.getDIR new, ?_, ?_, ?_⟩
    . have := nextDIR_of_allocateDIR hdir
      unfold Kernel.nextDIR at this ⊢
      rw [← hkernel]
      exact this
    . unfold Kernel.getPT Kernel.getDIR
      rw [hs']
      simp
    . apply childTable_of_copiesData h hde
      . rw [hs']
        exact hcopies
      . intro p hp
        have := hmapped p (by omega) hp
        rwa [Mm.dataEntry, hentry₀ _ (Mm.pagLogInitData_add_lt hp)] at this

theorem load_eq_iff {page o : Nat} (hpage : page < totalPages) (ho : o < pageSize)
    (hpresent : (s.heapEntry page).present)
    : s'.mm.load (Mm.getPT d) (Mm.pageAddr page o) =
        s.mm.load (s.getPT s.current) (Mm.pageAddr page o) ↔
          (s'.mm.entry d page).present ∧
            s'.mm.frames (s'.mm.entry d page).pbaseAddr o = s.ownByte page o := by
  rw [Mm.load_pageAddr hpage ho, Kernel.getPT, Mm.load_pageAddr hpage ho,
    if_pos (show (s.mm.entry (s.getDIR s.current) page).present from hpresent)]
  split
  next hchild =>
    rw [Option.some_inj]
    exact ⟨fun heq => ⟨hchild, heq⟩, fun heq => heq.2⟩
  next hchild =>
    constructor
    . intro hnone
      cases hnone
    . exact fun hboth => absurd hboth.1 hchild

theorem ChildTable.frames_eq (h : ChildTable s s' d) {f : Nat} (hused : s.mm.physMem f = .usedFrame)
    {o : Nat} (ho : o < pageSize) : s'.mm.frames f o = s.mm.frames f o := by
  have hnot : f ∉ s.mm.nextFrames numPagData := by
    intro hmem
    rw [Mm.physMem_of_mem_nextFrames hmem] at hused
    cases hused
  rw [h.bytes f o ho]
  unfold Kernel.byteAfterCopy
  rw [List.idxOf?_eq_none_iff.mpr hnot]

theorem ChildTable.load_code (h : ChildTable s s' d) (hparent : s.KeepsParent) {page o : Nat}
    (hle : pagLogInitCode ≤ page) (hlt : page < pagLogInitData) (ho : o < pageSize)
    : s'.mm.load (Mm.getPT d) (Mm.pageAddr page o) =
        s.mm.load (s.getPT s.current) (Mm.pageAddr page o) := by
  have hpage := hlt.trans Mm.pagLogInitData_lt
  rw [Mm.load_pageAddr hpage ho, Kernel.getPT, Mm.load_pageAddr hpage ho, h.code page hle hlt]
  change _ = if (s.heapEntry page).present then some (s.ownByte page o) else none
  split
  next hpresent =>
    rw [h.frames_eq (hparent.used page hpage hpresent) ho]
    rfl
  next => rfl

theorem ChildTable.load_data (h : ChildTable s s' d) {p o : Nat} (hp : p < numPagData)
    (ho : o < pageSize)
    : s'.mm.load (Mm.getPT d) (Mm.pageAddr (pagLogInitData + p) o) =
        s.mm.load (s.getPT s.current) (Mm.pageAddr (pagLogInitData + p) o) := by
  obtain ⟨f, -, hentry, hbytes⟩ := h.data p hp
  rw [load_eq_iff (Mm.pagLogInitData_add_lt hp) ho (h.parent p hp), hentry]
  exact ⟨rfl, hbytes o ho⟩

theorem ChildTable.load_heap_iff (h : ChildTable s s' d) (hparent : s.ForkableParent) {page o : Nat}
    (hheap : s.HeapBelowBreak page) (ho : o < pageSize)
    : s'.mm.load (Mm.getPT d) (Mm.pageAddr page o) =
        s.mm.load (s.getPT s.current) (Mm.pageAddr page o) ↔
          (s.mm.entry d page).present ∧
            s.byteAfterCopy (s.mm.entry d page).pbaseAddr o = s.ownByte page o := by
  rw [load_eq_iff hheap.1.2 ho (hparent.heap page hheap), h.heap page hheap.1.2 hheap.1.1,
    h.bytes _ o ho]

theorem ChildTable.fresh_data (h : ChildTable s s' d) {p : Nat} (hp : p < numPagData)
    : (s'.mm.entry d (pagLogInitData + p)).present ∧
        s.mm.physMem (s'.mm.entry d (pagLogInitData + p)).pbaseAddr = .freeFrame := by
  obtain ⟨f, hf, hentry, -⟩ := h.data p hp
  rw [hentry]
  exact ⟨rfl, Mm.physMem_of_mem_nextFrames (List.mem_of_getElem? hf)⟩

/--
A child reads what its parent had, in frames of its own, just if the page table it gets has the heap
already.
-/
theorem copiesParent_iff (h : s.ForkableParent) (hfork : s.sysFork = some (r, s')) (hr : 0 ≤ r)
    (hnew : firstTask .freequeue s.links = some new)
    : CopiesParent s s' new ↔
        ∀ d ∈ s.nextDIR, ∀ page, s.HeapBelowBreak page → s.LeftOver d page := by
  obtain ⟨d, hd, hpt, htable⟩ := sysFork_child h.toKeepsParent hfork hr hnew
  rw [hd]
  constructor
  . rintro hcopies d' ⟨⟩ page hheap
    have hfresh := hcopies.fresh page (.inr hheap)
    rw [hpt] at hfresh
    change (s'.mm.entry d page).present ∧ s.mm.physMem (s'.mm.entry d page).pbaseAddr = _ at hfresh
    rw [htable.heap page hheap.1.2 hheap.1.1] at hfresh
    refine ⟨hfresh.1, hfresh.2, ?_⟩
    intro o ho hbelow
    have haddr := Mm.toNat_pageAddr hheap.1.2 ho
    have hload := hcopies.bytes (Mm.pageAddr page o) ?_ (by rwa [haddr])
    . rw [hpt, htable.load_heap_iff h hheap ho] at hload
      exact hload.2
    . rw [haddr]
      have := hheap.1.1
      unfold pagLogInitHeap pagLogInitData pagLogInitCode pageSize at *
      omega
  . intro hleft
    constructor
    . intro a hle hlt
      rw [hpt]
      by_cases hpage : totalPages ≤ a.toNat / pageSize
      . rw [Mm.load_past a hpage, Mm.load_past a hpage]
      have ho : a.toNat % pageSize < pageSize := Nat.mod_lt _ (by decide)
      rw [← Mm.pageAddr_div_mod a]
      have hcode : pagLogInitCode ≤ a.toNat / pageSize := by
        unfold pagLogInitCode pageSize at *
        omega
      by_cases hdata : a.toNat / pageSize < pagLogInitData
      . exact htable.load_code h.toKeepsParent hcode hdata ho
      by_cases hheap : a.toNat / pageSize < pagLogInitHeap
      . have := htable.load_data (p := a.toNat / pageSize - pagLogInitData)
          (by unfold pagLogInitHeap at hheap; omega) ho
        rwa [Nat.add_sub_cancel' (by omega)] at this
      . have hbelow : s.HeapBelowBreak (a.toNat / pageSize) :=
          ⟨⟨by omega, by omega⟩, (Nat.div_mul_le_self _ _).trans_lt hlt⟩
        obtain ⟨hpresent, -, hbytes⟩ := hleft d rfl _ hbelow
        rw [htable.load_heap_iff h hbelow ho]
        exact ⟨hpresent, hbytes _ ho (by rwa [Nat.div_add_mod'])⟩
    . rintro page hown
      rw [hpt]
      change (s'.mm.entry d page).present ∧ s.mm.physMem (s'.mm.entry d page).pbaseAddr = _
      rcases hown with ⟨hle, hlt⟩ | hheap
      . have := htable.fresh_data (p := page - pagLogInitData) (by unfold pagLogInitHeap at hlt; omega)
        rwa [Nat.add_sub_cancel' hle] at this
      . rw [htable.heap page hheap.1.2 hheap.1.1]
        obtain ⟨hpresent, hfree, -⟩ := hleft d rfl page hheap
        exact ⟨hpresent, hfree⟩

theorem enough_iff (h : s.KeepsParent) {s₁ : Sys} {k k' : Kernel} {enough : Bool}
    (htake : s.takeFree = some (new, s₁)) (hdir : (s₁.copyTask new).allocateDIR new = some k)
    (hpages : k.inheritPages new = some (enough, k')) : enough = true ↔ numPagData ≤ s.mm.freeFrames := by
  obtain ⟨hde, -⟩ := allocateDIR_child h htake hdir
  obtain ⟨mm, hdata, -⟩ := inheritPages_eq_some h htake hdir hpages
  rw [Mm.inheritData_enough_iff hde le_rfl (h.inheritCode hde).2 hdata]
  unfold Mm.freeFrames
  rw [(Mm.memory_inheritCode _ _ _).2]

theorem pid_makeReady (h : s.makeReady new = some (r, s')) : r = s.incrementalPID := by
  obtain ⟨s₁, h₁, h⟩ := Option.bind_eq_some_iff.mp h
  cases h
  rw [toKernel_mapLinks h₁]
  simp

theorem CanFork.exists_sysFork_of_frames (hcan : s.CanFork) (h : s.KeepsParent)
    (hframes : numPagData ≤ s.mm.freeFrames) : ∃ s', s.sysFork = some (s.incrementalPID, s') := by
  obtain ⟨r, s', hfork⟩ := hcan.exists_sysFork h
  refine ⟨s', ?_⟩
  cases sysFork_end hfork with
  | noSlot hempty =>
    rw [hcan.listEmpty_eq_false] at hempty
    cases hempty
  | noDIR htake hdir => exact absurd hdir (hcan.allocateDIR_ne_none htake)
  | noFrame htake hdir hpages =>
    have := (enough_iff h htake hdir hpages).mpr hframes
    cases this
  | created htake hdir hpages hready =>
    obtain ⟨mm, -, rfl⟩ := inheritPages_eq_some h htake hdir hpages
    obtain ⟨d, -, rfl⟩ := Kernel.allocateDIR_eq_some hdir
    rw [hfork, pid_makeReady hready, ← (takeFree_eq_some htake).2]
    rfl

def withBreak (s : Sys) : Sys :=
  (withHeapPage s).mapKernel fun k =>
    k.setTask k.current fun ts => { ts with processBreak := heapStart + pageSize }

theorem withBreak_boot : ∀ s ∈ boot fun _ _ => 0,
    (withBreak s).KeepsParent ∧ (withBreak s).CanFork ∧ numPagData ≤ (withBreak s).mm.freeFrames ∧
      (withBreak s).incrementalPID = 2 ∧ firstTask .freequeue (withBreak s).links = some 12 := by
  decide +kernel

theorem heap_withBreak_boot : ∀ s ∈ boot fun _ _ => 0,
    (withBreak s).currentBreak = heapStart + pageSize ∧
      ((withBreak s).heapEntry pagLogInitHeap).present ∧
        ∃ d ∈ (withBreak s).nextDIR, (withBreak s).mm.entry d pagLogInitHeap = .zero := by
  decide +kernel

theorem forkableParent_withBreak {s : Sys} (hs : s ∈ boot fun _ _ => 0)
    : (withBreak s).ForkableParent := by
  obtain ⟨hbreak, hpresent, -⟩ := heap_withBreak_boot s hs
  refine ⟨(withBreak_boot s hs).1, ?_⟩
  rintro page ⟨⟨hle, -⟩, hlt⟩
  rw [hbreak] at hlt
  have heq : page = pagLogInitHeap := by
    unfold heapStart pageSize at hlt
    omega
  rw [heq]
  exact hpresent

theorem exists_sysFork_withBreak {s : Sys} (hs : s ∈ boot fun _ _ => 0)
    : ∃ s', (withBreak s).sysFork = some (2, s') := by
  obtain ⟨hkeeps, hcan, hframes, hpid, -⟩ := withBreak_boot s hs
  have := hcan.exists_sysFork_of_frames hkeeps hframes
  rwa [hpid] at this

theorem copiesParent_iff_heapPage
    : ∃ s s', boot (fun _ _ => 0) = some s ∧ (withBreak s).sysFork = some (2, s') ∧
        (CopiesParent (withBreak s) s' 12 ↔
          ∀ d ∈ (withBreak s).nextDIR, ∀ page, (withBreak s).HeapBelowBreak page →
            (withBreak s).LeftOver d page) := by
  obtain ⟨s, hs⟩ := exists_boot fun _ _ => 0
  obtain ⟨s', hfork⟩ := exists_sysFork_withBreak hs
  obtain ⟨-, -, -, -, hnew⟩ := withBreak_boot s hs
  exact ⟨s, s', hs, hfork, copiesParent_iff (forkableParent_withBreak hs) hfork (by decide) hnew⟩

theorem not_copiesParent_heapPage
    : ∃ s s', boot (fun _ _ => 0) = some s ∧ (withBreak s).ForkableParent ∧
        (withBreak s).sysFork = some (2, s') ∧
          firstTask .freequeue (withBreak s).links = some 12 ∧ ¬CopiesParent (withBreak s) s' 12 := by
  obtain ⟨s, hs⟩ := exists_boot fun _ _ => 0
  have hparent := forkableParent_withBreak hs
  obtain ⟨s', hfork⟩ := exists_sysFork_withBreak hs
  obtain ⟨-, -, -, -, hnew⟩ := withBreak_boot s hs
  obtain ⟨hbreak, -, d, hd, hzero⟩ := heap_withBreak_boot s hs
  refine ⟨s, s', hs, hparent, hfork, hnew, ?_⟩
  intro hcopies
  obtain ⟨d', hd', hpt, htable⟩ := sysFork_child hparent.toKeepsParent hfork (by decide) hnew
  rw [hd'] at hd
  cases hd
  have hheap : (withBreak s).HeapBelowBreak pagLogInitHeap := by
    refine ⟨by decide, ?_⟩
    rw [hbreak]
    decide
  have hpresent := (hcopies.fresh _ (.inr hheap)).1
  rw [hpt] at hpresent
  change (s'.mm.entry _ pagLogInitHeap).present at hpresent
  rw [htable.heap _ hheap.1.2 le_rfl, hzero] at hpresent
  cases hpresent

end Sys

end Zeos
