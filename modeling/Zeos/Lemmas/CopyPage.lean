import Zeos.Lemmas.Mm

/-!
The copy of the data of a process by `sys_fork`, page by page through a window in its own page table.
-/

namespace Zeos

namespace Mm

def copied (mm : Mm) (fs fd k : Nat) : Mm :=
  { mm with frames := fun f o => if f = fd ∧ o < k then mm.frames fs o else mm.frames f o }

def MapsTo (mm : Mm) (i f : Nat) : Prop :=
  (mm.pagusrTable i).present = true ∧ (mm.pagusrTable i).pbaseAddr = f

def pageAddr (page o : Nat) : Addr :=
  BitVec.ofNat 32 (page * pageSize + o)

variable {mm : Mm} {pt ps pd fs fd page o f k : Nat}

theorem mapsTo_of_eq {i : Nat} (h : mm.pagusrTable i = ssEntry f) : mm.MapsTo i f := by
  unfold MapsTo
  rw [h]
  exact ⟨rfl, rfl⟩

theorem pageAddr_add (n : Nat) : pageAddr page o + BitVec.ofNat 32 n = pageAddr page (o + n) := by
  unfold pageAddr
  rw [← Nat.add_assoc, ← BitVec.ofNat_add]

theorem pageAddr_succ : pageAddr page o + 1 = pageAddr page (o + 1) :=
  pageAddr_add 1

theorem toNat_pageAddr (hpage : page < totalPages) (ho : o < pageSize)
    : (pageAddr page o).toNat = page * pageSize + o := by
  unfold pageAddr totalPages pageSize at *
  rw [BitVec.toNat_ofNat]
  omega

theorem pageAddr_div_mod (a : Addr) : pageAddr (a.toNat / pageSize) (a.toNat % pageSize) = a := by
  unfold pageAddr
  rw [Nat.div_add_mod', BitVec.ofNat_toNat, BitVec.setWidth_eq]

theorem entryOf_pageAddr (mm : Mm) (pt : Nat) (hpage : page < totalPages) (ho : o < pageSize)
    : mm.entryOf pt (pageAddr page o) =
          (if (mm.pagusrTable (pt + page)).present then some (mm.pagusrTable (pt + page)) else none) ∧
        (pageAddr page o).toNat % pageSize = o := by
  have hnat := toNat_pageAddr hpage ho
  have hdiv : (page * pageSize + o) / pageSize = page := by
    unfold pageSize at *
    omega
  have hmod : (page * pageSize + o) % pageSize = o := by
    unfold pageSize at *
    omega
  unfold entryOf
  rw [hnat, hdiv, if_pos hpage]
  exact ⟨rfl, hmod⟩

theorem translate_pageAddr (hpage : page < totalPages) (ho : o < pageSize)
    (hentry : mm.MapsTo (pt + page) f)
    : Space.translate { mm := mm, pt := pt } (pageAddr page o) = some (f, o) := by
  obtain ⟨hof, hmod⟩ := entryOf_pageAddr mm pt hpage ho
  unfold Space.translate
  rw [hof, hmod, if_pos hentry.1, Option.map_some, hentry.2]

section CopyPage

variable (hps : ps < totalPages) (hpd : pd < totalPages)
  (hs : mm.MapsTo (pt + ps) fs) (hd : mm.MapsTo (pt + pd) fd)
  (hne : fs ≠ fd)
include hps hs hne

theorem load_copied (ho : o < pageSize)
    : ByteMem.load ({ mm := mm.copied fs fd k, pt := pt } : Space) (pageAddr ps o) =
        some (mm.frames fs o) := by
  have htr : Space.translate { mm := mm.copied fs fd k, pt := pt } (pageAddr ps o) = some (fs, o) :=
    translate_pageAddr hps ho hs
  rw [Space.load_eq, htr]
  simp [copied, hne]

omit hps hs hne
include hpd hd

theorem store_copied (hk : k < pageSize)
    : ByteMem.store ({ mm := mm.copied fs fd k, pt := pt } : Space) (pageAddr pd k)
          (mm.frames fs k) =
        some { mm := mm.copied fs fd (k + 1), pt := pt } := by
  have htr : Space.translate { mm := mm.copied fs fd k, pt := pt } (pageAddr pd k) = some (fd, k) :=
    translate_pageAddr hpd hk hd
  rw [Space.store_eq, htr]
  simp only [Option.map_some, copied, setByte, Option.some.injEq, Space.mk.injEq, and_true,
    Mm.mk.injEq, true_and]
  funext f o
  by_cases hf : f = fd
  . rcases Nat.lt_trichotomy o k with ho | ho | ho
    . simp [hf, ho, Nat.ne_of_lt ho, Nat.lt_succ_of_lt ho]
    . simp [hf, ho]
    . simp [hf, Nat.ne_of_gt ho, show ¬o < k by omega, show ¬o < k + 1 by omega]
  . simp [hf]

include hps hs hne

theorem copyByte_copied (hk : k < pageSize)
    : copyByte (pageAddr ps k) (pageAddr pd k) ({ mm := mm.copied fs fd k, pt := pt } : Space) =
        some { mm := mm.copied fs fd (k + 1), pt := pt } := by
  unfold copyByte
  rw [load_copied hps hs hne hk]
  exact store_copied hpd hd hk

theorem copyDWord_copied (hk : k + 3 < pageSize)
    : copyDWord (pageAddr ps k) (pageAddr pd k) ({ mm := mm.copied fs fd k, pt := pt } : Space) =
        some { mm := mm.copied fs fd (k + 4), pt := pt } := by
  unfold copyDWord
  have h2 : ∀ page, pageAddr page k + 2 = pageAddr page (k + 2) := fun _ => pageAddr_add 2
  have h3 : ∀ page, pageAddr page k + 3 = pageAddr page (k + 3) := fun _ => pageAddr_add 3
  rw [pageAddr_succ, pageAddr_succ, h2, h2, h3, h3, load_copied hps hs hne (by omega),
    load_copied hps hs hne (by omega), load_copied hps hs hne (by omega),
    load_copied hps hs hne (by omega)]
  simp only [Option.bind_eq_bind, Option.bind_some]
  rw [store_copied hpd hd (by omega), Option.bind_some, store_copied hpd hd (by omega),
    Option.bind_some, store_copied hpd hd (by omega), Option.bind_some,
    store_copied hpd hd (by omega)]

theorem copyBytes_copied {n : Nat} (hk : k + n ≤ pageSize)
    : copyBytes n (pageAddr ps k) (pageAddr pd k) n ({ mm := mm.copied fs fd k, pt := pt } : Space) =
        some { mm := mm.copied fs fd (k + n), pt := pt } := by
  induction n generalizing k with
  | zero => rfl
  | succ n ih =>
    unfold copyBytes
    rw [if_pos (by omega), copyByte_copied hps hpd hs hd hne (by omega), Option.bind_some,
      pageAddr_succ, pageAddr_succ, show ((n + 1 : Nat) : Int) - 1 = n by omega, ih (by omega)]
    congr 3
    omega

theorem copyDWords_copied {n fuel : Nat} (hk : k + 4 * (n + 1) = pageSize) (hfuel : n < fuel)
    : copyDWords fuel (pageAddr ps k) (pageAddr pd k) (4 * (n + 1) : Nat)
          ({ mm := mm.copied fs fd k, pt := pt } : Space) =
        some (pageAddr ps (k + 4 * n), pageAddr pd (k + 4 * n), 4,
          { mm := mm.copied fs fd (k + 4 * n), pt := pt }) := by
  have h4 : ∀ page k, pageAddr page k + 4 = pageAddr page (k + 4) := fun _ _ => pageAddr_add 4
  induction n generalizing k fuel with
  | zero =>
    obtain ⟨fuel, rfl⟩ := Nat.exists_eq_add_of_lt hfuel
    unfold copyDWords
    rw [if_neg (by omega)]
    rfl
  | succ n ih =>
    obtain ⟨fuel, rfl⟩ := Nat.exists_eq_add_of_lt hfuel
    unfold copyDWords
    rw [if_pos (by omega), copyDWord_copied hps hpd hs hd hne (by omega), Option.bind_some, h4, h4,
      show ((4 * (n + 1 + 1) : Nat) : Int) - 4 = (4 * (n + 1) : Nat) by omega,
      ih (by omega) (by omega), show k + 4 + 4 * n = k + 4 * (n + 1) by omega]

theorem copyData_page
    : copyData (BitVec.ofNat 32 (ps * pageSize)) (BitVec.ofNat 32 (pd * pageSize)) pageSize
          ({ mm := mm, pt := pt } : Space) =
        some { mm := mm.copied fs fd pageSize, pt := pt } := by
  have hzero : mm = mm.copied fs fd 0 := by
    unfold copied
    simp
  have hstart : ∀ page, BitVec.ofNat 32 (page * pageSize) = pageAddr page 0 := by
    intro page
    unfold pageAddr
    rw [Nat.add_zero]
  have hsize : (pageSize : Int) = (4 * (1023 + 1) : Nat) := by decide
  have hbytes := copyBytes_copied hps hpd hs hd hne (k := 4092) (n := 4) le_rfl
  unfold copyData
  rw [Int.toNat_natCast, hstart, hstart, hsize]
  conv =>
    lhs
    rw [hzero]
  rw [copyDWords_copied hps hpd hs hd hne rfl (by unfold pageSize; omega), Option.bind_some]
  exact hbytes

end CopyPage

theorem copyData_absent (dest : Addr) (hps : ps < totalPages)
    (hs : (mm.pagusrTable (pt + ps)).present = false)
    : copyData (BitVec.ofNat 32 (ps * pageSize)) dest pageSize
        ({ mm := mm, pt := pt } : Space) = none := by
  have hof := (entryOf_pageAddr mm pt (o := 0) hps (by decide)).1
  rw [hs, if_neg (by simp)] at hof
  have hload : ByteMem.load ({ mm := mm, pt := pt } : Space) (pageAddr ps 0) = none :=
    congrArg (Option.map _) hof
  have hstart : BitVec.ofNat 32 (ps * pageSize) = pageAddr ps 0 := by
    unfold pageAddr
    rw [Nat.add_zero]
  have hsize : (pageSize : Int).toNat = 4095 + 1 := by decide
  unfold copyData
  rw [hstart, hsize, copyDWords, if_pos (by decide), copyDWord, hload]
  rfl

/--
The pages in `owned` are the same, and so is what they hold.
-/
def SamePages (owned : DirIx → Nat → Prop) (mm mm' : Mm) : Prop :=
  ∀ d, ∀ p < numPagData, owned d p → mm'.dataEntry d p = mm.dataEntry d p ∧
    ∀ o, mm'.frames (mm.dataEntry d p).pbaseAddr o = mm.frames (mm.dataEntry d p).pbaseAddr o

def dataByte (mm : Mm) (d : DirIx) (p o : Nat) : Byte :=
  mm.frames (mm.dataEntry d p).pbaseAddr o

section SamePages

variable {owned owned' : DirIx → Nat → Prop} {mm' mm'' : Mm} {d e : DirIx} {p : Nat}

theorem SamePages.refl (owned : DirIx → Nat → Prop) (mm : Mm) : SamePages owned mm mm :=
  fun _ _ _ _ => ⟨rfl, fun _ => rfl⟩

theorem SamePages.trans (h : SamePages owned mm mm') (h' : SamePages owned' mm' mm'')
    (howned : ∀ d p, owned d p → owned' d p) : SamePages owned mm mm'' := by
  intro d p hp hown
  obtain ⟨hentry, hframes⟩ := h d p hp hown
  obtain ⟨hentry', hframes'⟩ := h' d p hp (howned d p hown)
  refine ⟨hentry'.trans hentry, ?_⟩
  intro o
  rw [← hframes o, ← hentry]
  exact hframes' o

theorem SamePages.dataByte_eq (h : SamePages owned mm mm') (hp : p < numPagData) (hown : owned d p)
    (o : Nat) : mm'.dataByte d p o = mm.dataByte d p o := by
  obtain ⟨hentry, hframes⟩ := h d p hp hown
  unfold dataByte
  rw [hentry]
  exact hframes o

end SamePages

section InheritData

variable {owned : DirIx → Nat → Prop} {mm' : Mm} {d e : DirIx} {p : Nat}

theorem window_lt (hp : p < numPagData) : pagLogInitData + numPagData + p < totalPages := by
  unfold pagLogInitData pagLogInitCode numPagCode numPagData totalPages at *
  omega

def inheritPage (mm : Mm) (e d : DirIx) (p f : Nat) : Mm :=
  let mm₁ := (mm.setPhysMem f .usedFrame).setSsPag (getPT d) (pagLogInitData + p) f
  let mm₂ := mm₁.setSsPag (getPT e) (pagLogInitData + numPagData + p) f
  (mm₂.copied (mm.dataEntry e p).pbaseAddr f pageSize).delSsPag (getPT e)
    (pagLogInitData + numPagData + p)

theorem dataEntry_inheritPage (hp : p < numPagData) {x : DirIx} {q : Nat} (hq : q < numPagData)
    (f : Nat)
    : (mm.inheritPage e d p f).dataEntry x q =
        if x = d ∧ q = p then ssEntry f else mm.dataEntry x q := by
  have hne : ¬(x = e ∧ pagLogInitData + q = pagLogInitData + numPagData + p) := by
    rintro ⟨-, heq⟩
    omega
  refine (dataEntry_setEntry hq (window_lt hp)).trans ?_
  rw [if_neg hne]
  refine (dataEntry_setEntry hq (window_lt hp)).trans ?_
  rw [if_neg hne]
  refine (dataEntry_setEntry hq (pagLogInitData_add_lt hp)).trans ?_
  simp only [Nat.add_left_cancel_iff, dataEntry_setPhysMem]
  rfl

theorem entry_inheritPage (hp : p < numPagData) {x : DirIx} {page : Nat}
    (hpage : page < pagLogInitData) (f : Nat)
    : (mm.inheritPage e d p f).entry x page = mm.entry x page := by
  have hlt : page < totalPages := by
    unfold pagLogInitData pagLogInitCode numPagCode totalPages at *
    omega
  refine (entry_setEntry hlt (window_lt hp)).trans ?_
  rw [if_neg (by omega)]
  refine (entry_setEntry hlt (window_lt hp)).trans ?_
  rw [if_neg (by omega)]
  refine (entry_setEntry hlt (pagLogInitData_add_lt hp)).trans ?_
  rw [if_neg (by omega), entry_setPhysMem]

theorem frames_inheritPage (f g o : Nat)
    : (mm.inheritPage e d p f).frames g o =
        if g = f ∧ o < pageSize then mm.frames (mm.dataEntry e p).pbaseAddr o else mm.frames g o := by
  rfl

theorem Spaces.inheritPage (h : mm.Spaces owned) (hp : p < numPagData) (hd : ¬owned d p)
    (hf : InPool f) (hfree : mm.physMem f = .freeFrame)
    : (mm.inheritPage e d p f).Spaces (fun x q => owned x q ∨ (x = d ∧ q = p)) := by
  have hmapped := h.setSsPag hp hd hf hfree
  apply hmapped.congr
  . intro x q _
    rfl
  . intro x q hq
    rw [dataEntry_inheritPage hp hq]
    refine Eq.trans ?_ (dataEntry_setEntry hq (pagLogInitData_add_lt hp)).symm
    simp only [Nat.add_left_cancel_iff, dataEntry_setPhysMem]
    rfl
  . rfl
  . intro x page hpage hout
    by_cases hwindow : x = e ∧ page = pagLogInitData + numPagData + p
    . have : (mm.inheritPage e d p f).entry x page = .zero :=
        (entry_setEntry hpage (window_lt hp)).trans (if_pos hwindow)
      rw [this]
      simp [PageTableEntry.zero]
    . have : (mm.inheritPage e d p f).entry x page =
          ((mm.setPhysMem f .usedFrame).setSsPag (getPT d) (pagLogInitData + p) f).entry x page := by
        refine (entry_setEntry hpage (window_lt hp)).trans ?_
        rw [if_neg hwindow]
        exact (entry_setEntry hpage (window_lt hp)).trans (if_neg hwindow)
      rw [this]
      exact hmapped.guarded x page hpage hout

theorem Spaces.ne_of_free (h : mm.Spaces owned) (hfree : mm.physMem f = .freeFrame)
    (hp : p < numPagData) (hown : owned d p) : (mm.dataEntry d p).pbaseAddr ≠ f := by
  rintro rfl
  obtain ⟨g, hg, -, hused⟩ := h.mapped d p hp hown
  rw [hg] at hfree
  change mm.physMem g = .freeFrame at hfree
  rw [hused] at hfree
  cases hfree

theorem Spaces.samePages_inheritPage (h : mm.Spaces owned) (hp : p < numPagData) (hd : ¬owned d p)
    (hfree : mm.physMem f = .freeFrame) : SamePages owned mm (mm.inheritPage e d p f) := by
  intro x q hq hown
  constructor
  . rw [dataEntry_inheritPage hp hq, if_neg]
    rintro ⟨rfl, rfl⟩
    exact hd hown
  . intro o
    rw [frames_inheritPage, if_neg]
    exact fun hx => h.ne_of_free hfree hq hown hx.1

def openWindow (mm : Mm) (e d : DirIx) (p f : Nat) : Mm :=
  ((mm.setPhysMem f .usedFrame).setSsPag (getPT d) (pagLogInitData + p) f).setSsPag (getPT e)
    (pagLogInitData + numPagData + p) f

theorem entry_openWindow (hp : p < numPagData) (hde : e ≠ d) {page : Nat} (hpage : page < totalPages)
    (hne : page ≠ pagLogInitData + numPagData + p)
    : (mm.openWindow e d p f).entry e page = mm.entry e page := by
  apply (entry_setEntry hpage (window_lt hp)).trans
  rw [if_neg (fun heq => hne heq.2)]
  apply (entry_setEntry hpage (pagLogInitData_add_lt hp)).trans
  rw [if_neg (fun heq => hde heq.1), entry_setPhysMem]

theorem entry_window (hp : p < numPagData)
    : (mm.openWindow e d p f).entry e (pagLogInitData + numPagData + p) = ssEntry f :=
  (entry_setEntry (window_lt hp) (window_lt hp)).trans (if_pos ⟨rfl, rfl⟩)

section Round

variable (hp : p < numPagData) (hde : e ≠ d) {n : Nat} (hn : p + (n + 1) = numPagData)
  (framesNew : List Nat) (hf : mm.allocFrame = (some f, mm.setPhysMem f .usedFrame))
include hp hde hn hf

omit hp hde in
theorem inheritData_succ
    : Kernel.inheritData (getPT e) (getPT d) (getPT e) (n + 1) framesNew mm =
        (copyData (BitVec.ofNat 32 ((pagLogInitData + p) * pageSize))
          (BitVec.ofNat 32 ((pagLogInitData + numPagData + p) * pageSize)) pageSize
          ({ mm := mm.openWindow e d p f, pt := getPT e } : Space)).bind fun m =>
            Kernel.inheritData (getPT e) (getPT d) (getPT e) n (f :: framesNew)
              (m.mm.delSsPag (getPT e) (pagLogInitData + numPagData + p)) := by
  have hi : numPagData - (n + 1) = p := by omega
  rw [Kernel.inheritData, hf, hi]
  rfl

theorem inheritData_of_mapped {fs : Nat} (hs : mm.MapsTo (getPT e + (pagLogInitData + p)) fs)
    (hne : fs ≠ f)
    : Kernel.inheritData (getPT e) (getPT d) (getPT e) (n + 1) framesNew mm =
        Kernel.inheritData (getPT e) (getPT d) (getPT e) n (f :: framesNew)
          (mm.inheritPage e d p f) := by
  have hs' : (mm.openWindow e d p f).MapsTo (getPT e + (pagLogInitData + p)) fs := by
    unfold MapsTo at hs ⊢
    rw [← entry, entry_openWindow hp hde (pagLogInitData_add_lt hp) (by omega)]
    exact hs
  have hd : (mm.openWindow e d p f).MapsTo (getPT e + (pagLogInitData + numPagData + p)) f :=
    mapsTo_of_eq (entry_window hp)
  have hfs : (mm.dataEntry e p).pbaseAddr = fs := hs.2
  rw [inheritData_succ hn framesNew hf,
    copyData_page (pagLogInitData_add_lt hp) (window_lt hp) hs' hd hne, Option.bind_some]
  unfold inheritPage
  rw [hfs]
  rfl

theorem inheritData_of_absent (hs : (mm.dataEntry e p).present = false)
    : Kernel.inheritData (getPT e) (getPT d) (getPT e) (n + 1) framesNew mm = none := by
  have hs' : ((mm.openWindow e d p f).pagusrTable (getPT e + (pagLogInitData + p))).present = false := by
    rw [← entry, entry_openWindow hp hde (pagLogInitData_add_lt hp) (by omega)]
    exact hs
  rw [inheritData_succ hn framesNew hf, copyData_absent _ (pagLogInitData_add_lt hp) hs']
  rfl

end Round

theorem Spaces.inheritData (h : mm.Spaces owned) (he : ∀ p < numPagData, owned e p) (hde : e ≠ d)
    {n : Nat} (hn : n ≤ numPagData) (hd : ∀ p < numPagData, owned d p ↔ p < numPagData - n)
    (framesNew : List Nat)
    : ∃ mm', Kernel.inheritData (getPT e) (getPT d) (getPT e) n framesNew mm = some (true, mm') ∧
        mm'.Spaces (fun x q => owned x q ∨ x = d) ∧ SamePages owned mm mm' ∧
        (∀ x, ∀ page < pagLogInitData, mm'.entry x page = mm.entry x page) ∧
        ∀ p, numPagData - n ≤ p → p < numPagData → ∀ o < pageSize,
          mm'.dataByte d p o = mm.dataByte e p o := by
  induction n generalizing mm owned framesNew with
  | zero =>
    refine ⟨mm, rfl, ?_, .refl owned mm, fun _ _ _ => rfl, ?_⟩
    . apply h.congr
      . intro x q hq
        constructor
        . rintro (hown | rfl)
          . exact hown
          . exact (hd q hq).mpr hq
        . exact .inl
      . intro x q _
        rfl
      . rfl
      . exact h.guarded
    . intro p hle hlt
      omega
  | succ n ih =>
    obtain ⟨f, hf, hpool, hfree⟩ := h.allocFrame
    have hp : numPagData - (n + 1) < numPagData := by omega
    have hnot : ¬owned d (numPagData - (n + 1)) := by
      rw [hd _ hp]
      omega
    obtain ⟨fs, hfs, -, -⟩ := h.mapped e _ hp (he _ hp)
    have hne := h.ne_of_free hfree hp (he _ hp)
    rw [hfs] at hne
    have hround := inheritData_of_mapped (n := n) hp hde (by omega) framesNew hf
      (mapsTo_of_eq hfs) hne
    have hsame := h.samePages_inheritPage (e := e) hp hnot hfree
    have hspaces := h.inheritPage (e := e) hp hnot hpool hfree
    obtain ⟨mm', hdata, hspaces', hsame', hentries, hbytes⟩ := ih hspaces (fun p hp => .inl (he p hp))
      (by omega) (by
        intro q hq
        rw [hd q hq]
        constructor
        . rintro (hlt | ⟨-, rfl⟩) <;> omega
        . intro hlt
          by_cases heq : q = numPagData - (n + 1)
          . exact .inr ⟨rfl, heq⟩
          . exact .inl (by omega)) (f :: framesNew)
    refine ⟨mm', hround.trans hdata, ?_, hsame.trans hsame' (fun _ _ => .inl), ?_, ?_⟩
    . apply hspaces'.congr
      . intro x q _
        constructor
        . rintro (hown | rfl)
          . exact .inl (.inl hown)
          . exact .inr rfl
        . rintro ((hown | ⟨rfl, -⟩) | rfl)
          . exact .inl hown
          . exact .inr rfl
          . exact .inr rfl
      . intro x q _
        rfl
      . rfl
      . exact hspaces'.guarded
    . intro x page hpage
      rw [hentries x page hpage, entry_inheritPage hp hpage]
    . intro p hle hlt o ho
      by_cases heq : p = numPagData - (n + 1)
      . subst heq
        rw [hsame'.dataByte_eq hp (.inr ⟨rfl, rfl⟩)]
        unfold dataByte
        rw [dataEntry_inheritPage hp hp, if_pos ⟨rfl, rfl⟩, frames_inheritPage, if_pos ⟨rfl, ho⟩]
      . rw [hbytes p (by omega) hlt o ho]
        exact hsame.dataByte_eq hlt (he p hlt) o

section InheritCode

def copyEntries (d e : DirIx) (pages : List Nat) (mm : Mm) : Mm :=
  pages.foldl (fun mm page => mm.setEntry (getPT d + page) (mm.pagusrTable (getPT e + page))) mm

theorem memory_copyEntries (mm : Mm) (pages : List Nat)
    : (mm.copyEntries d e pages).frames = mm.frames ∧
        (mm.copyEntries d e pages).physMem = mm.physMem := by
  induction pages generalizing mm with
  | nil => exact ⟨rfl, rfl⟩
  | cons page pages ih =>
    exact ih (mm.setEntry (getPT d + page) (mm.pagusrTable (getPT e + page)))

theorem copyEntries_eq {pages : List Nat} (hpages : ∀ page ∈ pages, page < pagLogInitData)
    (hguarded : mm.Guarded)
    : (∀ x, ∀ q < numPagData, (mm.copyEntries d e pages).dataEntry x q = mm.dataEntry x q) ∧
        (mm.copyEntries d e pages).Guarded := by
  induction pages generalizing mm with
  | nil => exact ⟨fun _ _ _ => rfl, hguarded⟩
  | cons page pages ih =>
    have hpage : page < pagLogInitData := hpages page (by simp)
    have hlt : page < totalPages := by
      unfold pagLogInitData pagLogInitCode numPagCode totalPages at *
      omega
    have hguarded' :
        (mm.setEntry (getPT d + page) (mm.pagusrTable (getPT e + page))).Guarded := by
      intro x page' hpage' hout
      rw [entry_setEntry hpage' hlt]
      split
      next => exact hguarded e page hlt (by omega)
      next => exact hguarded x page' hpage' hout
    obtain ⟨hdata, hguarded''⟩ := ih (fun page hpage => hpages page (by simp [hpage])) hguarded'
    refine ⟨?_, hguarded''⟩
    intro x q hq
    rw [show mm.copyEntries d e (page :: pages) = (mm.setEntry (getPT d + page)
      (mm.pagusrTable (getPT e + page))).copyEntries d e pages by rfl, hdata x q hq,
      dataEntry_setEntry hq hlt, if_neg (by omega)]

theorem entry_copyEntries {pages : List Nat} (hpages : ∀ page ∈ pages, page < totalPages) (hde : e ≠ d)
    {x : DirIx} {page : Nat} (hpage : page < totalPages)
    : (mm.copyEntries d e pages).entry x page =
        if x = d ∧ page ∈ pages then mm.entry e page else mm.entry x page := by
  induction pages generalizing mm with
  | nil => simp [copyEntries]
  | cons q pages ih =>
    have hq : q < totalPages := hpages q (by simp)
    have hstep : mm.copyEntries d e (q :: pages) =
        (mm.setEntry (getPT d + q) (mm.pagusrTable (getPT e + q))).copyEntries d e pages := rfl
    have hentry : ∀ x, (mm.setEntry (getPT d + q) (mm.pagusrTable (getPT e + q))).entry x page =
        if x = d ∧ page = q then mm.entry e page else mm.entry x page := by
      intro x
      rw [entry_setEntry hpage hq]
      split
      next heq => rw [heq.2]; rfl
      next => rfl
    have hne : ¬(e = d ∧ page = q) := fun heq => hde heq.1
    rw [hstep, ih (fun page hpage => hpages page (by simp [hpage])), hentry, hentry, if_neg hne]
    by_cases hx : x = d
    . by_cases hpq : page = q
      . simp [hx, hpq]
      . simp only [hx, hpq, List.mem_cons, true_and, false_or, and_false, if_false]
    . simp [hx]

theorem inheritCode_eq
    : Kernel.inheritCode (getPT d) (getPT e) mm =
        (mm.copyEntries d e ((List.range numPagKernel).map (1 + ·))).copyEntries d e
          ((List.range numPagCode).map (pagLogInitCode + ·)) := by
  unfold copyEntries
  rw [List.foldl_map, List.foldl_map]
  rfl

theorem memory_inheritCode (d e : DirIx) (mm : Mm)
    : (Kernel.inheritCode (getPT d) (getPT e) mm).frames = mm.frames ∧
        (Kernel.inheritCode (getPT d) (getPT e) mm).physMem = mm.physMem := by
  rw [inheritCode_eq, (memory_copyEntries _ _).1, (memory_copyEntries _ _).1, (memory_copyEntries _ _).2,
    (memory_copyEntries _ _).2]
  exact ⟨rfl, rfl⟩

theorem kernelPages_lt {page : Nat} (hpage : page ∈ (List.range numPagKernel).map (1 + ·))
    : page < pagLogInitData := by
  obtain ⟨i, hi, rfl⟩ := List.mem_map.mp hpage
  rw [List.mem_range] at hi
  unfold numPagKernel at hi
  unfold pagLogInitData pagLogInitCode numPagCode
  omega

theorem codePages_lt {page : Nat} (hpage : page ∈ (List.range numPagCode).map (pagLogInitCode + ·))
    : page < pagLogInitData := by
  obtain ⟨i, hi, rfl⟩ := List.mem_map.mp hpage
  rw [List.mem_range] at hi
  unfold pagLogInitData
  omega

theorem pagLogInitData_lt : pagLogInitData < totalPages := by
  decide

theorem entry_inheritCode (hde : e ≠ d) {x : DirIx} {page : Nat} (hpage : page < totalPages)
    : (Kernel.inheritCode (getPT d) (getPT e) mm).entry x page =
        if x = d ∧ (page ∈ (List.range numPagKernel).map (1 + ·) ∨
          page ∈ (List.range numPagCode).map (pagLogInitCode + ·)) then mm.entry e page
        else mm.entry x page := by
  have hkernel : ∀ page ∈ (List.range numPagKernel).map (1 + ·), page < totalPages :=
    fun page hmem => (kernelPages_lt hmem).trans pagLogInitData_lt
  have hcode : ∀ page ∈ (List.range numPagCode).map (pagLogInitCode + ·), page < totalPages :=
    fun page hmem => (codePages_lt hmem).trans pagLogInitData_lt
  rw [inheritCode_eq, entry_copyEntries hcode hde hpage, entry_copyEntries hkernel hde hpage,
    entry_copyEntries hkernel hde hpage]
  simp only [hde, false_and, if_false]
  by_cases hx : x = d
  . by_cases hmem : page ∈ (List.range numPagCode).map (pagLogInitCode + ·)
    . rw [if_pos ⟨hx, hmem⟩, if_pos ⟨hx, .inr hmem⟩]
    . simp only [hmem, and_false, or_false, if_false]
  . simp only [hx, false_and, if_false]

theorem Spaces.inheritCode (h : mm.Spaces owned)
    : (Kernel.inheritCode (getPT d) (getPT e) mm).Spaces owned ∧
        SamePages owned mm (Kernel.inheritCode (getPT d) (getPT e) mm) := by
  obtain ⟨hframes, hphys⟩ := memory_inheritCode d e mm
  rw [inheritCode_eq] at hframes hphys ⊢
  obtain ⟨hdata, hguarded⟩ := copyEntries_eq (d := d) (e := e) (fun _ => kernelPages_lt) h.guarded
  obtain ⟨hdata', hguarded'⟩ := copyEntries_eq (d := d) (e := e) (fun _ => codePages_lt) hguarded
  constructor
  . apply h.congr
    . intro x q _
      rfl
    . intro x q hq
      rw [hdata' x q hq, hdata x q hq]
    . exact hphys
    . exact hguarded'
  . intro x q hq _
    refine ⟨by rw [hdata' x q hq, hdata x q hq], ?_⟩
    intro o
    rw [hframes]

theorem CodeMapped.inheritCode {dirs : DirIx → Prop} (h : mm.CodeMapped dirs) (he : dirs e)
    (hde : e ≠ d)
    : (Kernel.inheritCode (getPT d) (getPT e) mm).CodeMapped (fun x => dirs x ∨ x = d) := by
  intro x hx i hi
  have hpage : pagLogInitCode + i < totalPages := by
    unfold pagLogInitCode numPagCode totalPages at *
    omega
  have hmem : pagLogInitCode + i ∈ (List.range numPagCode).map (pagLogInitCode + ·) :=
    List.mem_map.mpr ⟨i, List.mem_range.mpr hi, rfl⟩
  rw [entry_inheritCode hde hpage]
  by_cases hxd : x = d
  . rw [if_pos ⟨hxd, .inr hmem⟩]
    exact h e he i hi
  . rw [if_neg (fun heq => hxd heq.1)]
    exact h x (hx.resolve_right hxd) i hi

end InheritCode

theorem Spaces.inherit (h : mm.Spaces owned) (he : ∀ p < numPagData, owned e p) (hde : e ≠ d)
    (hd : ∀ p < numPagData, ¬owned d p)
    : ∃ mm', Kernel.inheritData (getPT e) (getPT d) (getPT e) numPagData []
          (Kernel.inheritCode (getPT d) (getPT e) mm) = some (true, mm') ∧
        mm'.Spaces (fun x q => owned x q ∨ x = d) ∧ SamePages owned mm mm' ∧
        (∀ x, ∀ page < pagLogInitData, mm'.entry x page =
          (Kernel.inheritCode (getPT d) (getPT e) mm).entry x page) ∧
        ∀ p < numPagData, ∀ o < pageSize, mm'.dataByte d p o = mm.dataByte e p o := by
  obtain ⟨hspaces, hsame⟩ := h.inheritCode (d := d) (e := e)
  obtain ⟨mm', hdata, hspaces', hsame', hentries, hbytes⟩ := hspaces.inheritData he hde le_rfl
    (fun p hp => ⟨fun hown => absurd hown (hd p hp), by omega⟩) []
  refine ⟨mm', hdata, hspaces', hsame.trans hsame' (fun _ _ h => h), hentries, ?_⟩
  intro p hp o ho
  rw [hbytes p (by omega) hp o ho]
  exact hsame.dataByte_eq hp (he p hp) o

end InheritData

end Mm

end Zeos
