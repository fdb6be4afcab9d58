import Zeos.Lemmas.Boot
import Zeos.Lemmas.Population

/-!
The memory in which `main` leaves the first user process.
-/

namespace Zeos

open Model

namespace Kernel

variable (t : Slot) (k : Kernel)

theorem mm_allocateDIR : ((k.allocateDIR t).getD k).mm = k.mm := by
  cases hk : k.allocateDIR t with
  | none => rfl
  | some k' =>
    obtain ⟨d, -, rfl⟩ := allocateDIR_eq_some hk
    rfl

theorem mm_initMm : k.initMm.mm = k.mm.initTablePages.initFrames :=
  mm_allocateDIR 0 _

theorem mm_initIdle : (k.initIdle t).mm = k.mm := by
  unfold initIdle
  exact mm_allocateDIR t _

theorem mm_initTask1
    : (k.initTask1 t).mm = k.mm.setUserPages (Mm.getPT (k.initTask1 t).cr3) := by
  have hmm : ∀ k : Kernel, (k.allocateFirstDIR t).mm = k.mm := mm_allocateDIR t
  unfold initTask1
  dsimp only
  rw [hmm]
  rfl

end Kernel

namespace Model

theorem mm_initFreequeue (is : List Slot) (m : Model) : (m.initFreequeue is).mm = m.mm := by
  unfold initFreequeue
  induction is generalizing m with
  | nil => rfl
  | cons i is ih => exact ih _

theorem mm_initSched (m : Model) : m.initSched.mm = m.mm := by
  change (initFreequeue (List.finRange nrTasks)
    ((m.mapQueues (Queues.init .keyboardqueue)).mapQueues (Queues.init .freequeue))).mm = m.mm
  rw [mm_initFreequeue]
  rfl

theorem mm_boot (frames : Nat → Nat → Byte)
    : (boot frames).mm =
        ((Sys.zero frames).mm.initTablePages.initFrames).setUserPages (Mm.getPT 1) := by
  have hcr3 : (boot frames).cr3 = 1 := rfl
  have henter : ∀ k : Kernel, k.enterUser.mm = k.mm ∧ k.enterUser.cr3 = k.cr3 :=
    fun _ => ⟨rfl, rfl⟩
  unfold boot at *
  simp only [mapKernel, mapQueues] at *
  rw [(henter _).2] at hcr3
  rw [(henter _).1, Kernel.mm_initTask1, hcr3, Kernel.mm_initIdle, mm_initSched, Kernel.mm_initMm]
  rfl

end Model

namespace Mm

variable {mm : Mm} {d : DirIx}

section AllocFrame

/-- The first `n` frames that `alloc_frame` hands out are in use, and no other one. -/
def UsedUpTo (mm : Mm) (n : Nat) : Prop :=
  ∀ f, numPagKernel ≤ f → f < totalPages → f % 2 = 0 →
    (mm.physMem f = .usedFrame ↔ f < numPagKernel + 2 * n)

theorem allocFrame_go_of_usedUpTo {n fuel i : Nat} (h : mm.UsedUpTo n) (hn : n < 384)
    (hi : numPagKernel ≤ i) (hle : i ≤ numPagKernel + 2 * n) (hmod : i % 2 = 0)
    (hfuel : numPagKernel + 2 * n < i + 2 * fuel)
    : allocFrame.go mm fuel i = some (numPagKernel + 2 * n) := by
  induction fuel generalizing i with
  | zero => omega
  | succ fuel ih =>
    have hlt : i < totalPages := by
      have : numPagKernel + 2 * n < totalPages := by
        unfold numPagKernel totalPages
        omega
      exact Nat.lt_of_le_of_lt hle this
    have hiff := h i hi hlt hmod
    unfold allocFrame.go
    by_cases heq : i = numPagKernel + 2 * n
    . have hfree : mm.physMem i = .freeFrame := by
        cases hcase : mm.physMem i with
        | freeFrame => rfl
        | usedFrame => exact absurd (hiff.mp hcase) (by omega)
      rw [if_pos hfree, heq]
    . have hused : mm.physMem i = .usedFrame := hiff.mpr (by omega)
      rw [if_neg (by simp [hused])]
      have hnext : i + 2 ≤ numPagKernel + 2 * n := by
        unfold numPagKernel at *
        omega
      apply ih <;> omega

theorem allocFrame_of_usedUpTo {n : Nat} (h : mm.UsedUpTo n) (hn : n < 384)
    : mm.allocFrame =
        (some (numPagKernel + 2 * n), mm.setPhysMem (numPagKernel + 2 * n) .usedFrame) := by
  have hgo : allocFrame.go mm ((totalPages - numPagKernel) / 2) numPagKernel =
      some (numPagKernel + 2 * n) := by
    apply allocFrame_go_of_usedUpTo h hn
    . omega
    . omega
    . rfl
    . unfold totalPages numPagKernel
      omega
  unfold allocFrame
  rw [hgo]

theorem UsedUpTo.succ {n : Nat} (h : mm.UsedUpTo n)
    : (mm.setPhysMem (numPagKernel + 2 * n) .usedFrame).UsedUpTo (n + 1) := by
  intro f hle hlt hmod
  rw [physMem_setPhysMem]
  split
  next heq => simp [heq]
  next hne =>
    rw [h f hle hlt hmod]
    unfold numPagKernel at *
    omega

end AllocFrame

theorem setCode (hused : mm.UsedUpTo 0) (n : Nat) (hn : n ≤ numPagCode)
    : ∃ mm', (List.range n).foldl (fun mm pag =>
          let (newPhPag, mm) := mm.allocFrame
          mm.setEntry (getPT d + (pagLogInitCode + pag))
            { present := true, rw := false, user := true, pbaseAddr := pbaseOfFrame newPhPag }) mm =
          mm' ∧ mm'.UsedUpTo n ∧ mm'.frames = mm.frames ∧
        ∀ e, ∀ page < totalPages, mm'.entry e page =
          if e = d ∧ pagLogInitCode ≤ page ∧ page < pagLogInitCode + n then
            codeEntry (page - pagLogInitCode)
          else mm.entry e page := by
  induction n with
  | zero =>
    refine ⟨mm, rfl, hused, rfl, ?_⟩
    intro e page _
    rw [if_neg (by omega)]
  | succ n ih =>
    obtain ⟨mm', heq, hused', hframes, hentry⟩ := ih (by omega)
    have halloc := allocFrame_of_usedUpTo hused' (by unfold numPagCode at hn; omega)
    refine ⟨_, rfl, ?_⟩
    rw [List.range_succ, List.foldl_append, heq, List.foldl_cons, List.foldl_nil, halloc]
    refine ⟨hused'.succ, hframes, ?_⟩
    intro e page hpage
    have hlt : pagLogInitCode + n < totalPages := by
      unfold pagLogInitCode totalPages numPagCode at *
      omega
    refine (entry_setEntry hpage hlt).trans ?_
    rw [entry_setPhysMem, hentry e page hpage]
    by_cases hlast : e = d ∧ page = pagLogInitCode + n
    . rw [if_pos hlast, if_pos ⟨hlast.1, by omega, by omega⟩, hlast.2, Nat.add_sub_cancel_left]
      rfl
    . rw [if_neg hlast]
      by_cases hin : e = d ∧ pagLogInitCode ≤ page ∧ page < pagLogInitCode + n
      . rw [if_pos hin, if_pos ⟨hin.1, hin.2.1, by omega⟩]
      . rw [if_neg hin, if_neg]
        rintro ⟨he, hle, hlt'⟩
        have hne : page ≠ pagLogInitCode + n := fun heq => hlast ⟨he, heq⟩
        exact hin ⟨he, hle, by omega⟩

theorem setData (h : mm.Spaces fun _ _ => False) (n : Nat) (hn : n ≤ numPagData)
    : ((List.range n).foldl (fun mm pag =>
          let (newPhPag, mm) := mm.allocFrame
          mm.setEntry (getPT d + (pagLogInitData + pag))
            { present := true, rw := true, user := true, pbaseAddr := pbaseOfFrame newPhPag })
          mm).Spaces (fun e p => e = d ∧ p < n) := by
  induction n with
  | zero =>
    apply h.congr
    . intro e p _
      simp
    . intro _ _ _
      rfl
    . rfl
    . exact h.guarded
  | succ n ih =>
    rw [List.range_succ, List.foldl_append]
    generalize hmm : List.foldl _ mm (List.range n) = mm' at ih
    have hspaces := ih (by omega)
    obtain ⟨f, halloc, hpool, hfree⟩ := hspaces.allocFrame
    rw [List.foldl_cons, List.foldl_nil, halloc]
    have hset := hspaces.setSsPag (d := d) (p := n) (by omega) (by omega) hpool hfree
    apply hset.congr
    . intro e p _
      constructor
      . rintro ⟨rfl, hlt⟩
        by_cases hpn : p = n
        . exact .inr ⟨rfl, hpn⟩
        . exact .inl ⟨rfl, by omega⟩
      . rintro (⟨rfl, hlt⟩ | ⟨rfl, rfl⟩)
        . exact ⟨rfl, by omega⟩
        . exact ⟨rfl, by omega⟩
    . intro _ _ _
      rfl
    . rfl
    . exact hset.guarded

theorem entry_setData (n : Nat) (hn : n ≤ numPagData) {page : Nat} (hpage : page < pagLogInitData)
    : ((List.range n).foldl (fun mm pag =>
          let (newPhPag, mm) := mm.allocFrame
          mm.setEntry (getPT d + (pagLogInitData + pag))
            { present := true, rw := true, user := true, pbaseAddr := pbaseOfFrame newPhPag })
          mm).entry d page = mm.entry d page := by
  have hlt : page < totalPages := by
    unfold pagLogInitData pagLogInitCode numPagCode totalPages at *
    omega
  induction n with
  | zero => rfl
  | succ n ih =>
    rw [List.range_succ, List.foldl_append]
    generalize hmm : List.foldl _ mm (List.range n) = mm' at ih
    rw [List.foldl_cons, List.foldl_nil, ← ih (by omega)]
    refine (entry_setEntry hlt (pagLogInitData_add_lt (by omega))).trans ?_
    rw [if_neg (by omega)]
    exact congrFun pagusrTable_allocFrame _

def initial (frames : Nat → Nat → Byte) : Mm :=
  (Sys.zero frames).mm.initTablePages.initFrames

variable (frames : Nat → Nat → Byte)

theorem usedUpTo_initial : (initial frames).UsedUpTo 0 := by
  intro f hle hlt _
  have heq : (initial frames).physMem f = .freeFrame := by
    change (if f < numPagKernel then Frame.usedFrame else if f < totalPages then .freeFrame else _) = _
    rw [if_neg (by omega), if_pos hlt]
  rw [heq]
  simp only [reduceCtorEq, false_iff]
  omega

theorem entry_initial {page : Nat} (hpage : page < totalPages)
    : (initial frames).entry d page =
        if 1 ≤ page ∧ page < numPagKernel then
          { present := true, rw := true, user := false, pbaseAddr := page }
        else .zero := by
  have hmod : (getPT d + page) % totalPages = page := by
    unfold getPT
    rw [Nat.mul_add_mod, Nat.mod_eq_of_lt hpage]
  have hlt : getPT d + page < nrTasks * totalPages := by
    have := d.isLt
    unfold getPT totalPages nrTasks at *
    omega
  unfold entry
  change (if getPT d + page < nrTasks * totalPages then
    if 1 ≤ (getPT d + page) % totalPages ∧ (getPT d + page) % totalPages < numPagKernel then _ else _
    else _) = _
  rw [if_pos hlt, hmod]

theorem entry_setUserPages {i : Nat} (hi : i < numPagCode)
    : ((initial frames).setUserPages (getPT d)).entry d (pagLogInitCode + i) = codeEntry i := by
  obtain ⟨mm, heq, -, -, hentry⟩ := setCode (d := d) (usedUpTo_initial frames) numPagCode le_rfl
  have hlt : pagLogInitCode + i < totalPages := by
    unfold pagLogInitCode numPagCode totalPages at *
    omega
  unfold setUserPages
  rw [heq]
  dsimp only
  rw [entry_setData numPagData le_rfl (by unfold pagLogInitData; omega), hentry d _ hlt,
    if_pos ⟨rfl, by omega, by omega⟩, Nat.add_sub_cancel_left]

theorem spaces_setUserPages
    : ((initial frames).setUserPages (getPT d)).Spaces (fun e p => e = d ∧ p < numPagData) := by
  obtain ⟨mm, heq, hused, -, hentry⟩ :=
    setCode (d := d) (usedUpTo_initial frames) numPagCode le_rfl
  unfold setUserPages
  rw [heq]
  apply setData ?_ numPagData le_rfl
  constructor
  . intro e p _ hown
    exact hown.elim
  . intro e p hp _
    have hlt := pagLogInitData_add_lt hp
    unfold dataEntry
    rw [hentry e _ hlt, if_neg, entry_initial frames hlt, if_neg]
    . unfold pagLogInitData pagLogInitCode numPagCode numPagKernel
      omega
    . unfold pagLogInitData
      omega
  . intro _ _ _ _ _ _ hown
    exact hown.elim
  . intro f hpool hphys
    have hlt := (hused f (by unfold InPool at hpool; omega) hpool.2.2 hpool.1).mp hphys
    unfold InPool at hpool
    omega
  . intro f hle hlt hmod
    apply (hused f hle ?_ hmod).mpr hlt
    unfold numPagKernel numPagCode totalPages at *
    omega
  . intro e page hpage _
    rw [hentry e page hpage]
    split
    next => simp [codeEntry]
    next =>
      rw [entry_initial frames hpage]
      split
      next => simp
      next => simp [PageTableEntry.zero]

end Mm

section Boot

variable (frames : Nat → Nat → Byte)

theorem refsDIR_boot (d : DirIx)
    : (Model.boot frames).refsDIR d = if d = 0 ∨ d = 1 then 2 else 0 := by
  fin_cases d <;> rfl

theorem spaces_boot : (Model.boot frames).mm.Spaces (Owned (Model.boot frames).toKernel) := by
  rw [mm_boot]
  have hspaces := Mm.spaces_setUserPages (d := 1) frames
  apply hspaces.congr
  . intro d p hp
    unfold Owned
    rw [refsDIR_boot]
    by_cases h0 : d = 0
    . simp [h0]
    . by_cases h1 : d = 1
      . simp [h1, hp]
      . simp [h0, h1]
  . intro _ _ _
    rfl
  . rfl
  . exact hspaces.guarded

theorem code_boot
    : (Model.boot frames).mm.CodeMapped (fun d => Owned (Model.boot frames).toKernel d 0) := by
  intro d hd i hi
  have hone : d = 1 := by
    obtain ⟨h0, hrefs⟩ := hd
    rw [refsDIR_boot] at hrefs
    by_contra hne
    rw [if_neg (by simp [h0, hne])] at hrefs
    exact hrefs rfl
  rw [mm_boot, hone]
  exact Mm.entry_setUserPages frames hi

theorem eq_of_mem_liveBoot {t : Slot} (ht : t ∈ liveBoot) : t = 13 ∨ t = 14 := by
  simpa [liveBoot] using ht

theorem members_boot (d : DirIx)
    : (members (Model.boot frames).toKernel liveBoot d).card = if d = 0 ∨ d = 1 then 1 else 0 := by
  have h13 : ((Model.boot frames).task 13).nDirectorio = 1 := rfl
  have h14 : ((Model.boot frames).task 14).nDirectorio = 0 := rfl
  unfold members liveBoot
  rw [Finset.filter_insert, Finset.filter_singleton, h13, h14]
  by_cases h0 : d = 0
  . simp [h0]
  . by_cases h1 : d = 1
    . simp [h1]
    . simp [h0, h1, Ne.symm h0, Ne.symm h1]

theorem population_boot : Population (.boot frames) liveBoot := by
  constructor
  . intro t ht
    rcases eq_of_mem_liveBoot ht with rfl | rfl <;> rfl
  . intro d
    rw [refsDIR_boot, members_boot]
    split
    next => rfl
    next => rfl
  . intro t ht
    have hidle : (Model.boot frames).idleTask = 14 := rfl
    rw [hidle]
    rcases eq_of_mem_liveBoot ht with rfl | rfl
    . have h13 : ((Model.boot frames).task 13).nDirectorio = 1 := rfl
      rw [h13]
      decide
    . have h14 : ((Model.boot frames).task 14).nDirectorio = 0 := rfl
      rw [h14]
      decide
  . intro t
    rw [seq_boot, if_pos rfl]
    revert t
    decide
  . intro _
    exact ⟨13, by decide, rfl⟩
  . rfl
  . intro t ht
    rcases eq_of_mem_liveBoot ht with rfl | rfl
    . exact .inl rfl
    . exact .inr rfl
  . exact spaces_boot frames
  . exact code_boot frames

end Boot

end Zeos
