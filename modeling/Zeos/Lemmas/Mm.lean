import Mathlib.Data.Finset.Card
import Mathlib.Data.Fintype.Card
import Mathlib.Data.Fintype.Prod
import Zeos.Impl.Sys
import Zeos.Lemmas.Utils
import Zeos.Spec.Pool

/-!
The frames behind the data pages. Which pages are mapped is a set of pairs of a directory and the number
of a data page.
-/

namespace Zeos

namespace Mm

def ssEntry (frame : Nat) : PageTableEntry :=
  { present := true, rw := true, user := true, pbaseAddr := frame }

def codeEntry (i : Nat) : PageTableEntry :=
  { present := true, rw := false, user := true, pbaseAddr := numPagKernel + 2 * i }

def CodeMapped (mm : Mm) (dirs : DirIx → Prop) : Prop :=
  ∀ d, dirs d → ∀ i < numPagCode, mm.entry d (pagLogInitCode + i) = codeEntry i

def InPool (f : Nat) : Prop :=
  f % 2 = 0 ∧ numPagKernel + 2 * numPagCode ≤ f ∧ f < totalPages

variable {mm mm' : Mm} {d e : DirIx} {page page' p f : Nat} {x : PageTableEntry}

section Entries

theorem getPT_add_eq_iff (hpage : page < totalPages) (hpage' : page' < totalPages)
    : getPT d + page = getPT e + page' ↔ d = e ∧ page = page' := by
  unfold getPT totalPages at *
  constructor
  . intro h
    have : (d : Nat) = e := by omega
    exact ⟨Fin.ext this, by omega⟩
  . rintro ⟨rfl, rfl⟩
    rfl

theorem entry_setEntry (hpage : page < totalPages) (hpage' : page' < totalPages)
    : (mm.setEntry (getPT e + page') x).entry d page =
        if d = e ∧ page = page' then x else mm.entry d page := by
  unfold entry setEntry
  simp only [getPT_add_eq_iff hpage hpage']

theorem pagLogInitData_add_lt (hp : p < numPagData) : pagLogInitData + p < totalPages := by
  unfold pagLogInitData pagLogInitCode numPagCode numPagData totalPages at *
  omega

theorem dataEntry_setEntry (hp : p < numPagData) (hpage' : page' < totalPages)
    : (mm.setEntry (getPT e + page') x).dataEntry d p =
        if d = e ∧ pagLogInitData + p = page' then x else mm.dataEntry d p :=
  entry_setEntry (pagLogInitData_add_lt hp) hpage'

@[simp]
theorem physMem_setEntry (i : Nat) : (mm.setEntry i x).physMem = mm.physMem := by
  rfl

@[simp]
theorem frames_setEntry (i : Nat) : (mm.setEntry i x).frames = mm.frames := by
  rfl

@[simp]
theorem pagusrTable_setPhysMem (u : Frame) : (mm.setPhysMem f u).pagusrTable = mm.pagusrTable := by
  rfl

@[simp]
theorem entry_setPhysMem (u : Frame) : (mm.setPhysMem f u).entry d page = mm.entry d page := by
  rfl

@[simp]
theorem dataEntry_setPhysMem (u : Frame) : (mm.setPhysMem f u).dataEntry d p = mm.dataEntry d p := by
  rfl

@[simp]
theorem frames_setPhysMem (u : Frame) : (mm.setPhysMem f u).frames = mm.frames := by
  rfl

@[simp]
theorem physMem_setPhysMem (u : Frame) (g : Nat)
    : (mm.setPhysMem f u).physMem g = if g = f then u else mm.physMem g := by
  rfl

end Entries

section AllocFrame

theorem allocFrame_go_eq_some {fuel i : Nat} (h : allocFrame.go mm fuel i = some f)
    : mm.physMem f = .freeFrame ∧ i ≤ f ∧ f < i + 2 * fuel ∧ f % 2 = i % 2 := by
  induction fuel generalizing i with
  | zero => cases h
  | succ fuel ih =>
    unfold allocFrame.go at h
    split at h
    next hfree =>
      cases h
      exact ⟨hfree, by omega, by omega, rfl⟩
    next =>
      obtain ⟨hfree, hle, hlt, hmod⟩ := ih h
      exact ⟨hfree, by omega, by omega, by omega⟩

theorem allocFrame_go_eq_none {fuel i : Nat} (h : allocFrame.go mm fuel i = none)
    : ∀ f, i ≤ f → f < i + 2 * fuel → f % 2 = i % 2 → mm.physMem f = .usedFrame := by
  induction fuel generalizing i with
  | zero => omega
  | succ fuel ih =>
    unfold allocFrame.go at h
    split at h
    next => cases h
    next hused =>
      intro f hle hlt hmod
      by_cases hfi : f = i
      . rw [hfi]
        cases hcase : mm.physMem i with
        | freeFrame => exact absurd hcase hused
        | usedFrame => rfl
      . exact ih h f (by omega) (by omega) (by omega)

theorem allocFrame_eq_some (h : mm.allocFrame = (some f, mm'))
    : mm.physMem f = .freeFrame ∧ numPagKernel ≤ f ∧ f < totalPages ∧ f % 2 = 0 ∧
        mm' = mm.setPhysMem f .usedFrame := by
  unfold allocFrame at h
  split at h
  next g hg =>
    rw [Prod.mk.injEq, Option.some.injEq] at h
    obtain ⟨rfl, rfl⟩ := h
    obtain ⟨hfree, hle, hlt, hmod⟩ := allocFrame_go_eq_some hg
    unfold numPagKernel totalPages at *
    exact ⟨hfree, hle, by omega, by omega, rfl⟩
  next => cases h

theorem allocFrame_eq_none (h : mm.allocFrame = (none, mm'))
    : ∀ f, numPagKernel ≤ f → f < totalPages → f % 2 = 0 → mm.physMem f = .usedFrame := by
  unfold allocFrame at h
  split at h
  next => cases h
  next hg =>
    intro f hle hlt hmod
    apply allocFrame_go_eq_none hg f hle
    . unfold numPagKernel totalPages at *
      omega
    . unfold numPagKernel
      omega

theorem allocFrame_go_congr (h : mm'.physMem = mm.physMem) (fuel i : Nat)
    : allocFrame.go mm' fuel i = allocFrame.go mm fuel i := by
  induction fuel generalizing i with
  | zero => rfl
  | succ fuel ih =>
    unfold allocFrame.go
    rw [h, ih]

theorem allocFrame_congr (h : mm'.physMem = mm.physMem) : mm'.allocFrame.1 = mm.allocFrame.1 := by
  unfold allocFrame
  rw [allocFrame_go_congr h]
  split
  next => rfl
  next => rfl

theorem pagusrTable_allocFrame : (mm.allocFrame.2).pagusrTable = mm.pagusrTable := by
  unfold allocFrame
  split
  next => rfl
  next => rfl

end AllocFrame

theorem pagusrTable_freeFrame (f : Nat) : (mm.freeFrame f).pagusrTable = mm.pagusrTable := by
  unfold freeFrame
  split
  next => rfl
  next => rfl

theorem pagusrTable_delSsPag {tp i : Nat} (j : Nat)
    : (mm.delSsPag tp i).pagusrTable j = if j = tp + i then .zero else mm.pagusrTable j := by
  rfl

theorem pagusrTable_setSsPag {tp i : Nat} (f j : Nat)
    : (mm.setSsPag tp i f).pagusrTable j =
        if j = tp + i then { present := true, rw := true, user := true, pbaseAddr := f }
        else mm.pagusrTable j := by
  rfl

def Guarded (mm : Mm) : Prop :=
  ∀ d, ∀ page < totalPages, ¬(pagLogInitData ≤ page ∧ page < pagLogInitHeap) →
    ¬((mm.entry d page).present ∧ (mm.entry d page).user ∧ (mm.entry d page).rw)

theorem Guarded.setEntry (h : mm.Guarded) (hp : p < numPagData) (x : PageTableEntry)
    : (mm.setEntry (getPT d + (pagLogInitData + p)) x).Guarded := by
  intro e page hpage hout
  have hkept : (mm.setEntry (getPT d + (pagLogInitData + p)) x).entry e page = mm.entry e page := by
    refine (entry_setEntry hpage (pagLogInitData_add_lt hp)).trans (if_neg ?_)
    rintro ⟨-, rfl⟩
    apply hout
    unfold pagLogInitHeap
    omega
  rw [hkept]
  exact h e page hpage hout

/--
Exactly the data pages in `owned` are mapped, to frames of their own, and no other page of a user can be
written. Every frame of the pool that is in use is that of such a page.
-/
structure Spaces (mm : Mm) (owned : DirIx → Nat → Prop) : Prop where
  mapped : ∀ d, ∀ p < numPagData, owned d p →
    ∃ f, mm.dataEntry d p = ssEntry f ∧ InPool f ∧ mm.physMem f = .usedFrame
  empty : ∀ d, ∀ p < numPagData, ¬owned d p → mm.dataEntry d p = .zero
  inj : ∀ d e p p', p < numPagData → p' < numPagData → owned d p → owned e p' →
    (mm.dataEntry d p).pbaseAddr = (mm.dataEntry e p').pbaseAddr → d = e ∧ p = p'
  accounted : ∀ f, InPool f → mm.physMem f = .usedFrame →
    ∃ d, ∃ p < numPagData, owned d p ∧ (mm.dataEntry d p).pbaseAddr = f
  code : ∀ f, numPagKernel ≤ f → f < numPagKernel + 2 * numPagCode → f % 2 = 0 →
    mm.physMem f = .usedFrame
  guarded : mm.Guarded

namespace Spaces

variable {owned owned' : DirIx → Nat → Prop}

theorem congr (h : mm.Spaces owned) (howned : ∀ d, ∀ p < numPagData, owned' d p ↔ owned d p)
    (hdata : ∀ d, ∀ p < numPagData, mm'.dataEntry d p = mm.dataEntry d p)
    (hphys : mm'.physMem = mm.physMem) (hguarded : mm'.Guarded) : mm'.Spaces owned' := by
  constructor
  . intro d p hp hown
    rw [hdata d p hp, hphys]
    exact h.mapped d p hp ((howned d p hp).mp hown)
  . intro d p hp hown
    rw [hdata d p hp]
    exact h.empty d p hp (fun h => hown ((howned d p hp).mpr h))
  . intro d e p p' hp hp' hown hown'
    rw [hdata d p hp, hdata e p' hp']
    exact h.inj d e p p' hp hp' ((howned d p hp).mp hown) ((howned e p' hp').mp hown')
  . intro f hf hused
    rw [hphys] at hused
    obtain ⟨d, p, hp, hown, heq⟩ := h.accounted f hf hused
    exact ⟨d, p, hp, (howned d p hp).mpr hown, by rw [hdata d p hp]; exact heq⟩
  . rw [hphys]
    exact h.code
  . exact hguarded

/--
There is always a frame left: the pool is larger than the data of all directories.
-/
theorem allocFrame (h : mm.Spaces owned)
    : ∃ f, mm.allocFrame = (some f, mm.setPhysMem f .usedFrame) ∧ InPool f ∧
        mm.physMem f = .freeFrame := by
  obtain ⟨f, mm', heq⟩ : ∃ f mm', mm.allocFrame = (f, mm') := ⟨_, _, rfl⟩
  cases f with
  | some f =>
    obtain ⟨hfree, hle, hlt, hmod, rfl⟩ := allocFrame_eq_some heq
    refine ⟨f, heq, ⟨hmod, ?_, hlt⟩, hfree⟩
    by_contra hcode
    rw [h.code f hle (by omega) hmod] at hfree
    cases hfree
  | none =>
    exfalso
    have hused := allocFrame_eq_none heq
    have hpage : ∀ k : Fin 376, ∃ x : DirIx × Fin numPagData,
        (mm.dataEntry x.1 x.2).pbaseAddr = numPagKernel + 2 * numPagCode + 2 * k := by
      intro k
      have hk := k.isLt
      have hpool : InPool (numPagKernel + 2 * numPagCode + 2 * k) := by
        unfold InPool numPagKernel numPagCode totalPages
        omega
      have hle : numPagKernel ≤ numPagKernel + 2 * numPagCode + 2 * k := by omega
      obtain ⟨d, p, hp, -, heq⟩ := h.accounted _ hpool (hused _ hle hpool.2.2 hpool.1)
      exact ⟨(d, ⟨p, hp⟩), heq⟩
    choose g hg using hpage
    have hinj : Function.Injective g := by
      intro k k' hkk'
      have := hg k
      rw [hkk', hg k'] at this
      exact Fin.ext (by omega)
    have hcard := Fintype.card_le_of_injective g hinj
    rw [Fintype.card_prod, Fintype.card_fin, Fintype.card_fin, Fintype.card_fin] at hcard
    exact absurd hcard (by decide)

theorem setSsPag (h : mm.Spaces owned) (hp : p < numPagData) (hown : ¬owned d p) (hf : InPool f)
    (hfree : mm.physMem f = .freeFrame)
    : ((mm.setPhysMem f .usedFrame).setSsPag (getPT d) (pagLogInitData + p) f).Spaces
        (fun e q => owned e q ∨ (e = d ∧ q = p)) := by
  have hdata : ∀ e, ∀ q < numPagData,
      ((mm.setPhysMem f .usedFrame).setSsPag (getPT d) (pagLogInitData + p) f).dataEntry e q =
        if e = d ∧ q = p then ssEntry f else mm.dataEntry e q := by
    intro e q hq
    refine (dataEntry_setEntry hq (pagLogInitData_add_lt hp)).trans ?_
    simp only [Nat.add_left_cancel_iff, dataEntry_setPhysMem]
    rfl
  have hne : ∀ e, ∀ q < numPagData, owned e q → (mm.dataEntry e q).pbaseAddr ≠ f := by
    rintro e q hq hown' rfl
    obtain ⟨g, hg, -, hused⟩ := h.mapped e q hq hown'
    rw [hg] at hfree
    rw [show (ssEntry g).pbaseAddr = g by rfl, hused] at hfree
    cases hfree
  have hne' : ∀ e q, owned e q → ¬(e = d ∧ q = p) := by
    rintro e q hown' ⟨rfl, rfl⟩
    exact hown hown'
  constructor
  . intro e q hq hown'
    rw [hdata e q hq]
    by_cases heq : e = d ∧ q = p
    . rw [if_pos heq]
      exact ⟨f, rfl, hf, if_pos rfl⟩
    . obtain ⟨g, hg, hpool, hused⟩ := h.mapped e q hq (hown'.resolve_right heq)
      rw [if_neg heq]
      refine ⟨g, hg, hpool, ?_⟩
      change (if g = f then Frame.usedFrame else mm.physMem g) = .usedFrame
      rw [hused, ite_self]
  . intro e q hq hown'
    rw [not_or] at hown'
    rw [hdata e q hq, if_neg hown'.2]
    exact h.empty e q hq hown'.1
  . intro e e' q q' hq hq' hown₁ hown₂
    rw [hdata e q hq, hdata e' q' hq']
    rcases hown₁ with hown₁ | hown₁ <;> rcases hown₂ with hown₂ | hown₂
    . rw [if_neg (hne' e q hown₁), if_neg (hne' e' q' hown₂)]
      exact h.inj e e' q q' hq hq' hown₁ hown₂
    . rw [if_neg (hne' e q hown₁), if_pos hown₂]
      exact fun heq => absurd heq (hne e q hq hown₁)
    . rw [if_pos hown₁, if_neg (hne' e' q' hown₂)]
      exact fun heq => absurd heq.symm (hne e' q' hq' hown₂)
    . intro _
      rw [hown₁.1, hown₁.2, hown₂.1, hown₂.2]
      exact ⟨rfl, rfl⟩
  . intro g hg hused
    by_cases hgf : g = f
    . subst hgf
      exact ⟨d, p, hp, .inr ⟨rfl, rfl⟩, by rw [hdata d p hp, if_pos ⟨rfl, rfl⟩]; rfl⟩
    . have hused' : mm.physMem g = .usedFrame := by
        rw [← hused]
        exact (if_neg hgf).symm
      obtain ⟨e, q, hq, hown', heq⟩ := h.accounted g hg hused'
      exact ⟨e, q, hq, .inl hown', by rw [hdata e q hq, if_neg (hne' e q hown')]; exact heq⟩
  . intro g hle hlt hmod
    change (if g = f then Frame.usedFrame else mm.physMem g) = .usedFrame
    rw [h.code g hle hlt hmod, ite_self]
  . have hguarded : (mm.setPhysMem f .usedFrame).Guarded := h.guarded
    exact hguarded.setEntry hp _

theorem delSsPag (h : mm.Spaces owned) (hp : p < numPagData) (hown : owned d p)
    : ((mm.freeFrame (mm.getFrame (getPT d) (pagLogInitData + p))).delSsPag (getPT d)
          (pagLogInitData + p)).Spaces (fun e q => owned e q ∧ ¬(e = d ∧ q = p)) := by
  obtain ⟨f, hf, hpool, -⟩ := h.mapped d p hp hown
  have hframe : mm.getFrame (getPT d) (pagLogInitData + p) = f :=
    congrArg PageTableEntry.pbaseAddr hf
  have hfree : mm.freeFrame f = mm.setPhysMem f .freeFrame := by
    unfold InPool numPagKernel numPagCode at hpool
    exact if_pos ⟨by unfold numPagKernel; omega, hpool.2.2⟩
  rw [hframe, hfree]
  have hdata : ∀ e, ∀ q < numPagData,
      ((mm.setPhysMem f .freeFrame).delSsPag (getPT d) (pagLogInitData + p)).dataEntry e q =
        if e = d ∧ q = p then .zero else mm.dataEntry e q := by
    intro e q hq
    refine (dataEntry_setEntry hq (pagLogInitData_add_lt hp)).trans ?_
    simp only [Nat.add_left_cancel_iff, dataEntry_setPhysMem]
  have hphys : ∀ g, ((mm.setPhysMem f .freeFrame).delSsPag (getPT d) (pagLogInitData + p)).physMem g =
      if g = f then .freeFrame else mm.physMem g := fun _ => rfl
  constructor
  . intro e q hq hown'
    obtain ⟨g, hg, hpool', hused⟩ := h.mapped e q hq hown'.1
    rw [hdata e q hq, if_neg hown'.2]
    refine ⟨g, hg, hpool', ?_⟩
    rw [hphys, if_neg, hused]
    rintro rfl
    exact hown'.2 (h.inj e d q p hq hp hown'.1 hown (by rw [hg, hf]))
  . intro e q hq hown'
    rw [hdata e q hq]
    split
    next => rfl
    next hne => exact h.empty e q hq (fun hown => hown' ⟨hown, hne⟩)
  . intro e e' q q' hq hq' hown₁ hown₂
    rw [hdata e q hq, hdata e' q' hq', if_neg hown₁.2, if_neg hown₂.2]
    exact h.inj e e' q q' hq hq' hown₁.1 hown₂.1
  . intro g hg hused
    rw [hphys] at hused
    split at hused
    next => cases hused
    next hgf =>
      obtain ⟨e, q, hq, hown', heq⟩ := h.accounted g hg hused
      have hne : ¬(e = d ∧ q = p) := by
        rintro ⟨rfl, rfl⟩
        rw [hf] at heq
        exact hgf heq.symm
      exact ⟨e, q, hq, ⟨hown', hne⟩, by rw [hdata e q hq, if_neg hne]; exact heq⟩
  . intro g hle hlt hmod
    rw [hphys, if_neg, h.code g hle hlt hmod]
    rintro rfl
    exact absurd hpool.2.1 (by omega)
  . have hguarded : (mm.setPhysMem f .freeFrame).Guarded := h.guarded
    exact hguarded.setEntry hp _

theorem freeUserPages (h : mm.Spaces owned) (hown : ∀ p < numPagData, owned d p)
    : (Kernel.freeUserPages (getPT d) mm).Spaces (fun e q => owned e q ∧ e ≠ d) := by
  have key : ∀ n ≤ numPagData, ((List.range n).foldl (fun mm p =>
      (mm.freeFrame (mm.getFrame (getPT d) (pagLogInitData + p))).delSsPag (getPT d)
        (pagLogInitData + p)) mm).Spaces (fun e q => owned e q ∧ ¬(e = d ∧ q < n)) := by
    intro n
    induction n with
    | zero =>
      intro _
      apply h.congr
      . intro e q hq
        simp
      . intro e q hq
        rfl
      . rfl
      . exact h.guarded
    | succ n ih =>
      intro hn
      rw [List.range_succ, List.foldl_append]
      have hlast := (ih (by omega)).delSsPag (d := d) (p := n) (by omega)
        ⟨hown n (by omega), by omega⟩
      apply hlast.congr
      . intro e q hq
        constructor
        . rintro ⟨hown', hne⟩
          refine ⟨⟨hown', ?_⟩, ?_⟩
          . rintro ⟨rfl, hlt⟩
            exact hne ⟨rfl, by omega⟩
          . rintro ⟨rfl, rfl⟩
            exact hne ⟨rfl, by omega⟩
        . rintro ⟨⟨hown', hne⟩, hne'⟩
          refine ⟨hown', ?_⟩
          rintro ⟨rfl, hlt⟩
          by_cases hqn : q = n
          . exact hne' ⟨rfl, hqn⟩
          . exact hne ⟨rfl, by omega⟩
      . intro e q hq
        rfl
      . rfl
      . exact hlast.guarded
  apply (key numPagData le_rfl).congr
  . intro e q hq
    constructor
    . rintro ⟨hown', hne⟩
      exact ⟨hown', fun h => hne h.1⟩
    . rintro ⟨hown', hne⟩
      exact ⟨hown', fun heq => hne ⟨heq, hq⟩⟩
  . intro e q hq
    rfl
  . rfl
  . exact (key numPagData le_rfl).guarded

end Spaces

end Mm

end Zeos
