import Zeos.Spec.Window
import Zeos.Lemmas.CopyPage
import Zeos.Lemmas.NoMemory

/-!
`sys_fork` unmaps the heap pages of the parent that it uses as a window onto the pages of the child.
-/

namespace Zeos

namespace Mm

variable {mm mm' : Mm} {d e : DirIx} {p f n : Nat}

section FreeFrames

theorem freeFrames_eq_zero_iff : mm.freeFrames = 0 ↔ mm.NoFreeFrame := by
  unfold freeFrames
  rw [Finset.card_eq_zero, Finset.filter_eq_empty_iff]
  constructor
  . intro h f hle hlt hmod
    cases hf : mm.physMem f with
    | usedFrame => rfl
    | freeFrame => exact absurd ⟨hle, hmod, hf⟩ (h (Finset.mem_range.mpr hlt))
  . intro h f hf hfree
    rw [h f hfree.1 (Finset.mem_range.mp hf) hfree.2.1] at hfree
    cases hfree.2.2

theorem freeFrames_of_allocFrame (h : mm.allocFrame = (some f, mm'))
    : mm' = mm.setPhysMem f .usedFrame ∧ mm.physMem f = .freeFrame ∧
        mm.freeFrames = mm'.freeFrames + 1 := by
  obtain ⟨hfree, hle, hlt, hmod, rfl⟩ := allocFrame_eq_some h
  refine ⟨rfl, hfree, ?_⟩
  let frames := (Finset.range totalPages).filter fun f =>
    numPagKernel ≤ f ∧ f % 2 = 0 ∧ mm.physMem f = .freeFrame
  have hmem : f ∈ frames := Finset.mem_filter.mpr ⟨Finset.mem_range.mpr hlt, hle, hmod, hfree⟩
  have herase : (Finset.range totalPages).filter (fun g =>
      numPagKernel ≤ g ∧ g % 2 = 0 ∧ (mm.setPhysMem f .usedFrame).physMem g = .freeFrame) =
        frames.erase f := by
    ext g
    rw [Finset.mem_erase, Finset.mem_filter, Finset.mem_filter, physMem_setPhysMem]
    by_cases hg : g = f
    . simp [hg]
    . simp [hg]
  unfold freeFrames
  rw [herase, Finset.card_erase_of_mem hmem]
  have hpos := Finset.card_pos.mpr ⟨f, hmem⟩
  show frames.card = frames.card - 1 + 1
  omega

end FreeFrames

def MapsUsed (mm : Mm) (e : DirIx) : Prop :=
  ∀ page < totalPages, (mm.entry e page).present → mm.physMem (mm.entry e page).pbaseAddr = .usedFrame

theorem MapsUsed.ne_of_free (h : mm.MapsUsed e) {page : Nat} (hpage : page < totalPages)
    (hpresent : (mm.entry e page).present) (hfree : mm.physMem f = .freeFrame)
    : (mm.entry e page).pbaseAddr ≠ f := by
  rintro rfl
  rw [h page hpage hpresent] at hfree
  cases hfree

theorem entry_inheritPage_parent (hp : p < numPagData) (hde : e ≠ d) {page : Nat}
    (hpage : page < totalPages)
    : (mm.inheritPage e d p f).entry e page =
        if page = pagLogInitHeap + p then .zero else mm.entry e page := by
  apply (entry_setEntry hpage (window_lt hp)).trans
  by_cases hwindow : page = pagLogInitHeap + p
  . rw [if_pos hwindow, if_pos ⟨rfl, hwindow⟩]
  . rw [if_neg hwindow, if_neg (fun heq => hwindow heq.2)]
    exact entry_openWindow hp hde hpage hwindow

theorem MapsUsed.inheritPage (h : mm.MapsUsed e) (hp : p < numPagData) (hde : e ≠ d)
    : (mm.inheritPage e d p f).MapsUsed e := by
  intro page hpage
  rw [entry_inheritPage_parent hp hde hpage]
  split
  next => simp [PageTableEntry.zero]
  next =>
    intro hpresent
    show (mm.setPhysMem f .usedFrame).physMem _ = _
    rw [physMem_setPhysMem]
    split
    next => rfl
    next => exact h page hpage hpresent

theorem foldl_freeFrame (mm : Mm) (fs : List Nat)
    : (fs.foldl freeFrame mm).pagusrTable = mm.pagusrTable ∧
        (fs.foldl freeFrame mm).frames = mm.frames := by
  induction fs generalizing mm with
  | nil => exact ⟨rfl, rfl⟩
  | cons f fs ih =>
    obtain ⟨htable, hframes⟩ := ih (mm.freeFrame f)
    rw [pagusrTable_freeFrame] at htable
    refine ⟨htable, hframes.trans ?_⟩
    unfold freeFrame
    split
    next => rfl
    next => rfl

/-- The pages that the last `n` rounds of the loop use as a window. -/
def Window (mm : Mm) (n page : Nat) : Prop :=
  pagLogInitHeap + (numPagData - n) ≤ page ∧
    page < pagLogInitHeap + (numPagData - n) + min n mm.freeFrames

instance (mm : Mm) (n : Nat) : DecidablePred (mm.Window n) :=
  fun _ => inferInstanceAs (Decidable (_ ∧ _))

theorem inheritData_succ_eq_some (hde : e ≠ d) (hn : n + 1 ≤ numPagData) (hused : mm.MapsUsed e)
    {framesNew : List Nat} {enough : Bool}
    (h : Kernel.inheritData (getPT e) (getPT d) (getPT e) (n + 1) framesNew mm = some (enough, mm'))
    : (mm.NoFreeFrame ∧ enough = false ∧ mm' = framesNew.foldl freeFrame mm) ∨
        ∃ f, mm.allocFrame = (some f, mm.setPhysMem f .usedFrame) ∧
          (mm.dataEntry e (numPagData - (n + 1))).present ∧
          Kernel.inheritData (getPT e) (getPT d) (getPT e) n (f :: framesNew)
            (mm.inheritPage e d (numPagData - (n + 1)) f) = some (enough, mm') := by
  have hp : numPagData - (n + 1) < numPagData := by omega
  have hround : numPagData - (n + 1) + (n + 1) = numPagData := by omega
  cases halloc : mm.allocFrame with
  | mk f mm₁ =>
    cases f with
    | none =>
      have hfull : mm.NoFreeFrame := noFreeFrame_iff.mpr (congrArg Prod.fst halloc)
      rw [Kernel.inheritData, hfull.allocFrame] at h
      cases h
      exact .inl ⟨hfull, rfl, rfl⟩
    | some f =>
      obtain ⟨rfl, hfree, -⟩ := freeFrames_of_allocFrame halloc
      cases hpresent : (mm.dataEntry e (numPagData - (n + 1))).present with
      | false =>
        rw [inheritData_of_absent hp hde hround framesNew halloc hpresent] at h
        cases h
      | true =>
        have hne : (mm.dataEntry e (numPagData - (n + 1))).pbaseAddr ≠ f :=
          hused.ne_of_free (pagLogInitData_add_lt hp) hpresent hfree
        rw [inheritData_of_mapped hp hde hround framesNew halloc ⟨hpresent, rfl⟩ hne] at h
        exact .inr ⟨f, rfl, rfl, h⟩

theorem inheritData_parent (hde : e ≠ d) (hn : n ≤ numPagData) (hused : mm.MapsUsed e)
    {framesNew : List Nat} {enough : Bool}
    (h : Kernel.inheritData (getPT e) (getPT d) (getPT e) n framesNew mm = some (enough, mm'))
    : (∀ page < totalPages, mm'.entry e page =
          if mm.Window n page then .zero else mm.entry e page) ∧
        ∀ g, mm.physMem g = .usedFrame → mm'.frames g = mm.frames g := by
  induction n generalizing mm framesNew with
  | zero =>
    cases h
    constructor
    . intro page _
      rw [if_neg]
      unfold Window
      omega
    . intro g _
      rfl
  | succ n ih =>
    rcases inheritData_succ_eq_some hde hn hused h with ⟨hfull, -, rfl⟩ | ⟨f, halloc, -, h⟩
    . obtain ⟨htable, hframes⟩ := foldl_freeFrame mm framesNew
      constructor
      . intro page _
        rw [if_neg]
        . exact congrFun htable _
        . unfold Window
          rw [freeFrames_eq_zero_iff.mpr hfull]
          omega
      . intro g _
        exact congrFun hframes g
    . obtain ⟨-, hfree, hcount⟩ := freeFrames_of_allocFrame halloc
      have hp : numPagData - (n + 1) < numPagData := by omega
      obtain ⟨htable, hframes⟩ := ih (by omega) (hused.inheritPage hp hde) h
      constructor
      . intro page hpage
        rw [htable page hpage, entry_inheritPage_parent hp hde hpage]
        have hsplit : mm.Window (n + 1) page ↔ page = pagLogInitHeap + (numPagData - (n + 1)) ∨
            (mm.inheritPage e d (numPagData - (n + 1)) f).Window n page := by
          have hrest : (mm.inheritPage e d (numPagData - (n + 1)) f).freeFrames =
              (mm.setPhysMem f .usedFrame).freeFrames := rfl
          unfold Window
          rw [hrest, hcount]
          omega
        simp only [hsplit]
        by_cases hfirst : page = pagLogInitHeap + (numPagData - (n + 1))
        . simp [hfirst]
        . simp [hfirst]
      . intro g hg
        have hgf : g ≠ f := by
          rintro rfl
          rw [hg] at hfree
          cases hfree
        have hg' : (mm.inheritPage e d (numPagData - (n + 1)) f).physMem g = .usedFrame := by
          show (mm.setPhysMem f .usedFrame).physMem g = _
          rw [physMem_setPhysMem, if_neg hgf, hg]
        rw [hframes g hg']
        funext o
        rw [frames_inheritPage, if_neg (fun heq => hgf heq.1)]

theorem isSome_inheritData (hde : e ≠ d) (hn : n ≤ numPagData) (hused : mm.MapsUsed e)
    (hmapped : ∀ q < numPagData, (mm.dataEntry e q).present) (framesNew : List Nat)
    : (Kernel.inheritData (getPT e) (getPT d) (getPT e) n framesNew mm).isSome := by
  induction n generalizing mm framesNew with
  | zero => rfl
  | succ n ih =>
    have hp : numPagData - (n + 1) < numPagData := by omega
    have hround : numPagData - (n + 1) + (n + 1) = numPagData := by omega
    cases halloc : mm.allocFrame with
    | mk f mm₁ =>
      cases f with
      | none =>
        rw [Kernel.inheritData, halloc]
        rfl
      | some f =>
        obtain ⟨rfl, hfree, -⟩ := freeFrames_of_allocFrame halloc
        have hne : (mm.dataEntry e (numPagData - (n + 1))).pbaseAddr ≠ f :=
          hused.ne_of_free (pagLogInitData_add_lt hp) (hmapped _ hp) hfree
        rw [inheritData_of_mapped hp hde hround framesNew halloc ⟨hmapped _ hp, rfl⟩ hne]
        apply ih (by omega) (hused.inheritPage hp hde)
        intro q hq
        rw [dataEntry_inheritPage hp hq, if_neg (fun heq => hde heq.1)]
        exact hmapped q hq

end Mm

namespace Sys

section Fork

variable {s s' : Sys} {r : Int} {new : Slot} {s₁ : Sys} {k k' : Kernel} {enough : Bool}

theorem KeepsParent.inheritCode (h : s.KeepsParent) {d : DirIx} (hde : s.getDIR s.current ≠ d)
    : (∀ page < totalPages, (Kernel.inheritCode (Mm.getPT d) (Mm.getPT (s.getDIR s.current))
          s.mm).entry (s.getDIR s.current) page = s.heapEntry page) ∧
        (Kernel.inheritCode (Mm.getPT d) (Mm.getPT (s.getDIR s.current)) s.mm).MapsUsed
          (s.getDIR s.current) := by
  have hentry : ∀ page < totalPages, (Kernel.inheritCode (Mm.getPT d) (Mm.getPT (s.getDIR s.current))
      s.mm).entry (s.getDIR s.current) page = s.heapEntry page := by
    intro page hpage
    rw [Mm.entry_inheritCode hde hpage, if_neg (fun heq => hde heq.1)]
    rfl
  refine ⟨hentry, ?_⟩
  intro page hpage
  rw [hentry page hpage, (Mm.memory_inheritCode _ _ _).2]
  exact h.used page hpage

theorem allocateDIR_child (h : s.KeepsParent) (htake : s.takeFree = some (new, s₁))
    (hdir : (s₁.copyTask new).allocateDIR new = some k)
    : s.getDIR s.current ≠ k.getDIR new ∧ k.getDIR k.current = s.getDIR s.current ∧
        k.cr3 = s.getDIR s.current ∧ k.mm = s.mm := by
  obtain ⟨hfirst, hkernel⟩ := takeFree_eq_some htake
  have hne : s.current ≠ new := by
    intro heq
    exact h.taken (by rw [heq, hfirst])
  obtain ⟨d, hzero, rfl⟩ := Kernel.allocateDIR_eq_some hdir
  have hcr3 := h.cr3
  have hcounted := h.counted
  rw [← hkernel] at hne hcr3 hcounted ⊢
  refine ⟨?_, ?_, hcr3, rfl⟩
  . intro heq
    apply hcounted
    rw [heq]
    simpa [Kernel.getDIR, copyTask] using hzero
  . simp [Kernel.getDIR, copyTask, hne]

theorem inheritPages_eq (h : s.KeepsParent) (htake : s.takeFree = some (new, s₁))
    (hdir : (s₁.copyTask new).allocateDIR new = some k)
    : k.inheritPages new =
        (Kernel.inheritData (Mm.getPT (s.getDIR s.current)) (Mm.getPT (k.getDIR new))
          (Mm.getPT (s.getDIR s.current)) numPagData []
          (Kernel.inheritCode (Mm.getPT (k.getDIR new)) (Mm.getPT (s.getDIR s.current)) s.mm)).map
            fun (enough, mm) => (enough, { k with mm := mm }) := by
  obtain ⟨-, hparent, hcr3, hmm⟩ := allocateDIR_child h htake hdir
  unfold Kernel.inheritPages Kernel.getPT
  rw [hparent, hcr3, hmm]

theorem inheritPages_eq_some (h : s.KeepsParent) (htake : s.takeFree = some (new, s₁))
    (hdir : (s₁.copyTask new).allocateDIR new = some k) (hpages : k.inheritPages new = some (enough, k'))
    : ∃ mm, Kernel.inheritData (Mm.getPT (s.getDIR s.current)) (Mm.getPT (k.getDIR new))
          (Mm.getPT (s.getDIR s.current)) numPagData []
          (Kernel.inheritCode (Mm.getPT (k.getDIR new)) (Mm.getPT (s.getDIR s.current)) s.mm) =
            some (enough, mm) ∧ k' = { k with mm := mm } := by
  rw [inheritPages_eq h htake hdir] at hpages
  obtain ⟨⟨enough', mm⟩, hdata, heq⟩ := Option.map_eq_some_iff.mp hpages
  cases heq
  exact ⟨mm, hdata, rfl⟩

/--
With pages for a child, the parent loses the entries of the windows, and nothing else.
-/
theorem parentKept_iff_of_pages (h : s.KeepsParent) (htake : s.takeFree = some (new, s₁))
    (hdir : (s₁.copyTask new).allocateDIR new = some k) (hpages : k.inheritPages new = some (enough, k'))
    (hmm : s'.mm = k'.mm) : ParentKept s s' ↔ s.WindowEmpty := by
  obtain ⟨hde, -⟩ := allocateDIR_child h htake hdir
  obtain ⟨mm, hdata, rfl⟩ := inheritPages_eq_some h htake hdir hpages
  rw [← show s'.mm = mm from hmm] at hdata
  obtain ⟨hframes₀, hphys₀⟩ := Mm.memory_inheritCode (k.getDIR new) (s.getDIR s.current) s.mm
  obtain ⟨hentry₀, hused₀⟩ := h.inheritCode hde
  have hwindow₀ : ∀ page, (Kernel.inheritCode (Mm.getPT (k.getDIR new)) (Mm.getPT (s.getDIR s.current))
      s.mm).Window numPagData page ↔
        pagLogInitHeap ≤ page ∧ page < pagLogInitHeap + min numPagData s.mm.freeFrames := by
    intro page
    unfold Mm.Window Mm.freeFrames
    rw [hphys₀]
    omega
  obtain ⟨htable, hframes⟩ := Mm.inheritData_parent hde le_rfl hused₀ hdata
  have hdirectory : ∃ d, s.refsDIR d = 0 := by
    obtain ⟨x, hzero, -⟩ := refsDIR_of_allocateDIR htake hdir hpages
    exact ⟨x, hzero⟩
  constructor
  . intro hkept _ _ i hi
    have hpage : pagLogInitHeap + i < totalPages := Mm.window_lt (by omega)
    rw [← hkept.table _ hpage]
    exact (htable _ hpage).trans (if_pos ((hwindow₀ _).mpr (by omega)))
  . intro hempty
    have hzero := hempty (listEmpty_of_takeFree htake) hdirectory
    constructor
    . intro page hpage
      apply (htable page hpage).trans
      split
      next hin =>
        obtain ⟨hle, hlt⟩ := (hwindow₀ page).mp hin
        have := hzero (page - pagLogInitHeap) (by omega)
        rwa [Nat.add_sub_cancel' hle, eq_comm] at this
      next => exact hentry₀ page hpage
    . intro page hpage hpresent o _
      rw [hframes _ (by rw [hphys₀]; exact h.used page hpage hpresent), hframes₀]

theorem windowEmpty_of_parentKept (h : s.KeepsParent) (hfork : s.sysFork = some (r, s'))
    (hkept : ParentKept s s') : s.WindowEmpty := by
  cases sysFork_end hfork with
  | noSlot hempty =>
    intro hnot
    rw [hempty] at hnot
    cases hnot
  | noDIR htake hdir =>
    rintro _ ⟨d, hzero⟩
    rw [← (takeFree_eq_some htake).2] at hzero
    exact absurd hzero (refsDIR_ne_zero hdir d)
  | noFrame htake hdir hpages => exact (parentKept_iff_of_pages h htake hdir hpages rfl).mp hkept
  | created htake hdir hpages hready =>
    have hmm := congrArg Kernel.mm (toKernel_makeReady hready)
    exact (parentKept_iff_of_pages h htake hdir hpages hmm).mp hkept

theorem parentKept_of_windowEmpty (h : s.KeepsParent) (hfork : s.sysFork = some (r, s'))
    (hempty : s.WindowEmpty) : ParentKept s s' := by
  cases sysFork_end hfork with
  | noSlot => exact ⟨fun _ _ => rfl, fun _ _ _ _ _ => rfl⟩
  | @noDIR new s₁ htake hdir =>
    have hmm : (s₁.copyTask new).mm = s.mm := by
      rw [← (takeFree_eq_some htake).2]
      rfl
    exact ⟨fun _ _ => by rw [hmm]; rfl, fun _ _ _ _ _ => by rw [hmm]⟩
  | noFrame htake hdir hpages => exact (parentKept_iff_of_pages h htake hdir hpages rfl).mpr hempty
  | created htake hdir hpages hready =>
    have hmm := congrArg Kernel.mm (toKernel_makeReady hready)
    exact (parentKept_iff_of_pages h htake hdir hpages hmm).mpr hempty

/--
A fork leaves the memory of the parent alone just if the parent does not use the pages of the windows.
-/
theorem parentKept_iff (h : s.KeepsParent) (hfork : s.sysFork = some (r, s'))
    : ParentKept s s' ↔ s.WindowEmpty :=
  ⟨windowEmpty_of_parentKept h hfork, parentKept_of_windowEmpty h hfork⟩

structure CanFork (s : Sys) : Prop where
  mapped : ∀ p < numPagData, (s.heapEntry (pagLogInitData + p)).present
  slot : ∃ x ∈ s.takeFree, ((x.2.copyTask x.1).allocateDIR x.1).isSome ∧
    (listAddTail (.list x.1) (.head .readyqueue) (x.2.copyTask x.1).links).isSome

theorem CanFork.listEmpty_eq_false (h : s.CanFork) : listEmpty (.head .freequeue) s.links = false := by
  obtain ⟨x, htake, -⟩ := h.slot
  exact listEmpty_of_takeFree htake

theorem CanFork.allocateDIR_ne_none (h : s.CanFork) (htake : s.takeFree = some (new, s₁))
    : (s₁.copyTask new).allocateDIR new ≠ none := by
  obtain ⟨⟨new', s₁'⟩, htake', hdir, -⟩ := h.slot
  rw [htake] at htake'
  cases htake'
  exact Option.isSome_iff_ne_none.mp hdir

theorem CanFork.exists_sysFork (hcan : s.CanFork) (h : s.KeepsParent)
    : ∃ r s', s.sysFork = some (r, s') := by
  obtain ⟨⟨new, s₁⟩, htake, hsome, hready⟩ := hcan.slot
  obtain ⟨k, hdir⟩ := Option.isSome_iff_exists.mp hsome
  obtain ⟨hde, -⟩ := allocateDIR_child h htake hdir
  have heq := inheritPages_eq h htake hdir
  obtain ⟨hentry, hused⟩ := h.inheritCode hde
  have hdata := Mm.isSome_inheritData hde le_rfl hused (by
    intro p hp
    rw [Mm.dataEntry, hentry _ (Mm.pagLogInitData_add_lt hp)]
    exact hcan.mapped p hp) []
  obtain ⟨⟨enough, mm⟩, hdata⟩ := Option.isSome_iff_exists.mp hdata
  rw [hdata, Option.map_some] at heq
  obtain ⟨links, hlinks⟩ := Option.isSome_iff_exists.mp hready
  have hfork : s.sysFork.isSome := by
    unfold sysFork
    rw [if_neg (by rw [hcan.listEmpty_eq_false]; simp), htake]
    simp only [Option.bind_eq_bind, Option.bind_some, hdir, heq]
    cases enough with
    | false => rfl
    | true => simp [makeReady, mapLinks, mapKernel, hlinks]
  obtain ⟨⟨r, s'⟩, hfork⟩ := Option.isSome_iff_exists.mp hfork
  exact ⟨r, s', hfork⟩

theorem keepsParent_iff
    : s.KeepsParent ↔ s.cr3 = s.getDIR s.current ∧ s.refsDIR (s.getDIR s.current) ≠ 0 ∧
        (∀ page < totalPages, (s.heapEntry page).present →
          s.mm.physMem (s.heapEntry page).pbaseAddr = .usedFrame) ∧
        firstTask .freequeue s.links ≠ some s.current :=
  ⟨fun h => ⟨h.cr3, h.counted, h.used, h.taken⟩, fun h => ⟨h.1, h.2.1, h.2.2.1, h.2.2.2⟩⟩

instance : DecidablePred KeepsParent :=
  fun _ => decidable_of_iff _ keepsParent_iff.symm

theorem canFork_iff
    : s.CanFork ↔ (∀ p < numPagData, (s.heapEntry (pagLogInitData + p)).present) ∧
        ∃ x ∈ s.takeFree, ((x.2.copyTask x.1).allocateDIR x.1).isSome ∧
          (listAddTail (.list x.1) (.head .readyqueue) (x.2.copyTask x.1).links).isSome :=
  ⟨fun h => ⟨h.mapped, h.slot⟩, fun h => ⟨h.1, h.2⟩⟩

instance : DecidablePred CanFork :=
  fun _ => decidable_of_iff _ canFork_iff.symm

end Fork

def withHeapPage (s : Sys) : Sys :=
  s.mapKernel fun k =>
    { k with
      mm := (k.mm.setPhysMem 800 .usedFrame).setSsPag (k.getPT k.current) pagLogInitHeap 800 }

theorem withHeapPage_boot : ∀ s ∈ boot fun _ _ => 0,
    (withHeapPage s).KeepsParent ∧ (withHeapPage s).CanFork ∧ (∃ d, (withHeapPage s).refsDIR d = 0) ∧
      (withHeapPage s).mm.physMem 1022 = .freeFrame ∧
        ((withHeapPage s).heapEntry pagLogInitHeap).present := by
  decide +kernel

theorem parentKept_iff_heapPage
    : ∃ s s' r, boot (fun _ _ => 0) = some s ∧ (withHeapPage s).sysFork = some (r, s') ∧
        (ParentKept (withHeapPage s) s' ↔ (withHeapPage s).WindowEmpty) := by
  obtain ⟨s, hs⟩ := exists_boot fun _ _ => 0
  obtain ⟨hkeeps, hcan, -⟩ := withHeapPage_boot s hs
  obtain ⟨r, s', hfork⟩ := hcan.exists_sysFork hkeeps
  exact ⟨s, s', r, hs, hfork, parentKept_iff hkeeps hfork⟩

theorem not_parentKept_heapPage
    : ∃ s s' r, boot (fun _ _ => 0) = some s ∧ (withHeapPage s).sysFork = some (r, s') ∧
        ¬ParentKept (withHeapPage s) s' := by
  obtain ⟨s, hs⟩ := exists_boot fun _ _ => 0
  obtain ⟨hkeeps, hcan, hdirectory, hfree, hpresent⟩ := withHeapPage_boot s hs
  obtain ⟨r, s', hfork⟩ := hcan.exists_sysFork hkeeps
  refine ⟨s, s', r, hs, hfork, ?_⟩
  intro hkept
  have hempty := windowEmpty_of_parentKept hkeeps hfork hkept
  have hpos : 0 < (withHeapPage s).mm.freeFrames := by
    by_contra hnot
    have hfull := Mm.freeFrames_eq_zero_iff.mp (Nat.eq_zero_of_not_pos hnot)
    have hused := hfull 1022 (by decide) (by decide) (by decide)
    rw [hfree] at hused
    cases hused
  have hzero : (withHeapPage s).heapEntry pagLogInitHeap = .zero :=
    hempty hcan.listEmpty_eq_false hdirectory 0 (Nat.lt_min.mpr ⟨by decide, hpos⟩)
  rw [hzero] at hpresent
  cases hpresent

end Sys

end Zeos
