import Zeos.Spec.ReadCalls
import Zeos.Lemmas.BootMemory
import Zeos.Lemmas.Undisturbed
import Zeos.Lemmas.Utils

/-!
No page table maps page 0, and no directory anything past `TOTAL_PAGES`. So no key is an address that can be
read, and the first key that `sys_read_keyboard` takes from the buffer stops the machine.
-/

namespace Zeos

namespace Mm

variable {mm mm' mm'' : Mm} {e : PageTableEntry} {i j tp pt : Nat}

/-- Where page 0 is not mapped in a table, it still is not. -/
def KeepsNull (mm mm' : Mm) : Prop :=
  ∀ d : DirIx, (mm.pagusrTable (getPT d)).present = false → (mm'.pagusrTable (getPT d)).present = false

namespace KeepsNull

theorem refl (mm : Mm) : KeepsNull mm mm :=
  fun _ h => h

theorem trans (h : KeepsNull mm mm') (h' : KeepsNull mm' mm'') : KeepsNull mm mm'' :=
  fun d hd => h' d (h d hd)

theorem of_table (h : mm'.pagusrTable = mm.pagusrTable) : KeepsNull mm mm' := by
  intro d hd
  rw [h]
  exact hd

theorem setEntry (h : (e.present = true → i % totalPages = 0 → (mm.pagusrTable i).present = true))
    : KeepsNull mm (mm.setEntry i e) := by
  intro d hd
  unfold Mm.setEntry
  dsimp only
  split
  next heq =>
    rw [← Bool.not_eq_true]
    intro hpresent
    have hmapped := h hpresent (by rw [← heq, getPT, Nat.mul_mod_right])
    rw [← heq, hd] at hmapped
    cases hmapped
  next => exact hd

theorem setPage {d : DirIx} {page : Nat} (hpage : page < totalPages) (hne : 0 < page) (mm : Mm)
    (e : PageTableEntry) : KeepsNull mm (mm.setEntry (getPT d + page) e) := by
  apply setEntry
  intro _ hzero
  rw [getPT, Nat.mul_add_mod, Nat.mod_eq_of_lt hpage] at hzero
  omega

theorem allocFrame (mm : Mm) : KeepsNull mm mm.allocFrame.2 :=
  of_table pagusrTable_allocFrame

theorem freeFrame (mm : Mm) (f : Nat) : KeepsNull mm (mm.freeFrame f) :=
  of_table (pagusrTable_freeFrame f)

theorem delSsPag (mm : Mm) (pt page : Nat) : KeepsNull mm (mm.delSsPag pt page) :=
  setEntry nofun

theorem freePage (mm : Mm) (pt page : Nat)
    : KeepsNull mm ((mm.freeFrame (mm.getFrame pt page)).delSsPag pt page) :=
  (freeFrame mm _).trans (delSsPag _ pt page)

theorem foldl {α : Type} {f : Mm → α → Mm} (as : List α) (h : ∀ mm, ∀ a ∈ as, KeepsNull mm (f mm a)) (mm : Mm)
    : KeepsNull mm (as.foldl f mm) := by
  induction as generalizing mm with
  | nil => exact refl mm
  | cons a as ih =>
    exact (h mm a List.mem_cons_self).trans (ih (fun mm b hb => h mm b (List.mem_cons_of_mem _ hb)) _)

theorem of_copyData {start dest : Addr} {size : Int} {m m' : Space}
    (h : copyData start dest size m = some m') : KeepsNull m.mm m'.mm := by
  apply of_table
  apply copyData_invariant (P := fun x : Space => x.mm.pagusrTable = m.mm.pagusrTable) _ h rfl
  intro x x' q v hstore hx
  exact (Space.pt_of_store hstore).2.trans hx

theorem setUserPages (d : DirIx) (mm : Mm) : KeepsNull mm (mm.setUserPages (getPT d)) := by
  have hcode : pagLogInitCode + numPagCode ≤ totalPages := by decide
  have hdata : pagLogInitData + numPagData ≤ totalPages := by decide
  have hpos : 0 < pagLogInitCode := by decide
  have hpos' : 0 < pagLogInitData := by decide
  unfold Mm.setUserPages
  refine trans (foldl _ ?_ mm) (foldl _ ?_ _)
  . intro mm i hi
    have hi := List.mem_range.mp hi
    exact (allocFrame mm).trans (setPage (by omega) (by omega) _ _)
  . intro mm i hi
    have hi := List.mem_range.mp hi
    exact (allocFrame mm).trans (setPage (by omega) (by omega) _ _)

section Fork

theorem inheritCode (d e : DirIx) (mm : Mm) : KeepsNull mm (Kernel.inheritCode (getPT d) (getPT e) mm) := by
  have hkernel : 1 + numPagKernel ≤ totalPages := by decide
  have hcode : pagLogInitCode + numPagCode ≤ totalPages := by decide
  have hpos : 0 < pagLogInitCode := by decide
  unfold Kernel.inheritCode
  refine trans (foldl _ ?_ mm) (foldl _ ?_ _)
  . intro mm i hi
    have hi := List.mem_range.mp hi
    exact setPage (by omega) (by omega) mm _
  . intro mm i hi
    have hi := List.mem_range.mp hi
    exact setPage (by omega) (by omega) mm _

theorem inheritData {n : Nat} {d e : DirIx} {fs : List Nat} {x : Bool × Mm}
    (h : Kernel.inheritData pt (getPT d) (getPT e) n fs mm = some x) : KeepsNull mm x.2 := by
  have hroom : pagLogInitData + numPagData + numPagData ≤ totalPages := by decide
  have hpos : 0 < pagLogInitData := by decide
  have hdata : 0 < numPagData := by decide
  induction n generalizing fs mm with
  | zero =>
    cases h
    exact refl mm
  | succ n ih =>
    unfold Kernel.inheritData at h
    dsimp only at h
    have halloc := allocFrame mm
    split at h
    next mm' hf =>
      rw [hf] at halloc
      cases h
      exact halloc.trans (foldl fs (fun mm f _ => freeFrame mm f) _)
    next f mm' hf =>
      rw [hf] at halloc
      obtain ⟨m, hcopy, h⟩ := Option.bind_eq_some_iff.mp h
      have hnew : KeepsNull mm' (mm'.setSsPag (getPT d) (pagLogInitData + (numPagData - (n + 1))) f) :=
        setPage (by omega) (by omega) _ _
      have hwindow (mm : Mm) : KeepsNull mm
          (mm.setSsPag (getPT e) (pagLogInitData + numPagData + (numPagData - (n + 1))) f) :=
        setPage (by omega) (by omega) _ _
      have hcopied := (halloc.trans (hnew.trans (hwindow _))).trans (of_copyData hcopy)
      exact (hcopied.trans (delSsPag _ _ _)).trans (ih h)

end Fork

theorem freeUserPages (pt : Nat) (mm : Mm) : KeepsNull mm (Kernel.freeUserPages pt mm) :=
  foldl _ (fun mm _ _ => freePage mm pt _) mm

section Sbrk

theorem sbrkRevert (tp : Nat) (last j : Int) (fuel : Nat) (mm : Mm)
    : KeepsNull mm (Kernel.sbrkRevert tp last j fuel mm) := by
  induction fuel generalizing j mm with
  | zero => exact refl mm
  | succ fuel ih =>
    unfold Kernel.sbrkRevert
    split
    next => exact (freePage mm tp _).trans (ih _ _)
    next => exact refl mm

/--
A page gets a frame only where one is mapped already.
-/
theorem sbrkGrow (tp : Nat) (iPage aux : Int) (n i : Nat) (mm : Mm)
    : KeepsNull mm (Kernel.sbrkGrow tp iPage aux n i mm).2 := by
  induction n generalizing i mm with
  | zero => exact refl mm
  | succ n ih =>
    unfold Kernel.sbrkGrow
    split
    next hpresent =>
      have halloc := allocFrame mm
      have htable : (mm.allocFrame.2).pagusrTable = mm.pagusrTable := pagusrTable_allocFrame
      split
      next f mm' hf =>
        rw [hf] at halloc htable
        have hset : KeepsNull mm' (mm'.setSsPag tp i f) := by
          apply setEntry
          intro _ _
          have htable : mm'.pagusrTable = mm.pagusrTable := htable
          rw [htable]
          exact hpresent
        exact (halloc.trans hset).trans (ih _ _)
      next mm' hf =>
        rw [hf] at halloc
        exact halloc.trans (sbrkRevert _ _ _ _ _)
    next => exact ih _ _

theorem sbrkShrink (tp : Nat) (last : Int) (fuel i : Nat) (mm : Mm)
    : KeepsNull mm (Kernel.sbrkShrink tp last fuel i mm).2 := by
  induction fuel generalizing i mm with
  | zero => exact refl mm
  | succ fuel ih =>
    unfold Kernel.sbrkShrink
    split
    next =>
      split
      next => exact refl mm
      next => exact (freePage mm tp i).trans (ih _ _)
    next => exact refl mm

theorem sysSbrk (incr : Int) (k : Kernel) : KeepsNull k.mm (k.sysSbrk incr).2.mm := by
  unfold Kernel.sysSbrk
  generalize Kernel.clampIncr _ incr = incr
  dsimp only
  split
  next => exact refl _
  split
  next =>
    have hgrow := sbrkGrow (k.getPT k.current)
    split
    next heq =>
      have hkept := congrArg Prod.snd heq ▸ hgrow _ _ _ _ _
      exact hkept
    next heq =>
      have hkept := congrArg Prod.snd heq ▸ hgrow _ _ _ _ _
      exact hkept
  split
  next =>
    generalize hx : Kernel.sbrkShrink _ _ _ _ _ = x
    have hkept : KeepsNull k.mm x.2 := hx ▸ sbrkShrink _ _ _ _ _
    split
    next => exact hkept
    next => exact hkept
  next => exact refl _

end Sbrk

end KeepsNull

end Mm

namespace Kernel

variable {k k' k'' : Kernel}

structure KeysFault (k : Kernel) : Prop where
  stops : k.faultsStop = true
  null : ∀ d : DirIx, (k.mm.pagusrTable (Mm.getPT d)).present = false

/--
A `char` as an address is in page 0, or past the end of the page tables if it is negative.
-/
theorem page_signExtend (key : Byte) (h : (key.signExtend 32).toNat / pageSize < totalPages)
    : (key.signExtend 32).toNat / pageSize = 0 := by
  have hpage : ∀ key : Byte, (key.signExtend 32).toNat / pageSize < totalPages →
      (key.signExtend 32).toNat / pageSize = 0 := by
    decide +kernel
  exact hpage key h

namespace KeysFault

theorem copyKey_eq (h : k.KeysFault) (key : Byte) (dest : Addr)
    : k.copyKey key dest = { k with stopped := true } := by
  have hload : ByteMem.load ({ mm := k.mm, pt := Mm.getPT k.cr3 } : Space) (key.signExtend 32) = none := by
    show (k.mm.entryOf (Mm.getPT k.cr3) _).map _ = none
    rw [Option.map_eq_none_iff]
    unfold Mm.entryOf
    dsimp only
    split
    next hpage =>
      rw [page_signExtend key hpage, Nat.add_zero, h.null]
      rfl
    next => rfl
  unfold copyKey
  dsimp only
  rw [hload]
  dsimp only
  rw [h.stops]

theorem readKeysLoop_eq (h : k.KeysFault) {n : Nat} (hn : 0 < n) (buff : Addr)
    : k.readKeysLoop n buff =
        (buff, { k with keyboardBuff := k.keyboardBuff.cirBuffRead.2, stopped := true }) := by
  obtain ⟨n, rfl⟩ := Nat.exists_eq_succ_of_ne_zero hn.ne'
  have hread : KeysFault { k with keyboardBuff := k.keyboardBuff.cirBuffRead.2 } := ⟨h.stops, h.null⟩
  unfold readKeysLoop
  dsimp only
  rw [hread.copyKey_eq]
  rfl

end KeysFault

structure Undelivered (k k' : Kernel) : Prop where
  copies : k'.copies = k.copies
  faultsStop : k'.faultsStop = k.faultsStop
  mm : k.mm.KeepsNull k'.mm

theorem KeysFault.undelivered (h : k.KeysFault) (hkept : Undelivered k k') : k'.KeysFault where
  stops := hkept.faultsStop.trans h.stops
  null d := hkept.mm d (h.null d)

namespace Undelivered

theorem refl (k : Kernel) : Undelivered k k :=
  ⟨rfl, rfl, .refl _⟩

theorem trans (h : Undelivered k k') (h' : Undelivered k' k'') : Undelivered k k'' where
  copies := h'.copies.trans h.copies
  faultsStop := h'.faultsStop.trans h.faultsStop
  mm := h.mm.trans h'.mm

theorem copiesSince (h : Undelivered k k') : k.copiesSince k' = [] := by
  unfold Kernel.copiesSince
  rw [h.copies]
  exact List.drop_length

theorem of_undisturbed (h : Undisturbed k k') : Undelivered k k' where
  copies := h.copies
  faultsStop := h.faultsStop
  mm := .of_table (congrArg Mm.pagusrTable h.mm)

theorem inheritPages {new : Slot} {x : Bool × Kernel} (h : k.inheritPages new = some x)
    : Undelivered k x.2 := by
  obtain ⟨y, hy, rfl⟩ := Option.map_eq_some_iff.mp h
  exact ⟨rfl, rfl, (Mm.KeepsNull.inheritCode _ _ _).trans (.inheritData hy)⟩

theorem releaseDIR (k : Kernel) : Undelivered k k.releaseDIR := by
  unfold Kernel.releaseDIR
  dsimp only
  split
  next => exact ⟨rfl, rfl, .freeUserPages _ _⟩
  next => exact ⟨rfl, rfl, .refl _⟩

theorem sysSbrk (incr : Int) (k : Kernel) : Undelivered k (k.sysSbrk incr).2 := by
  have hmm := Mm.KeepsNull.sysSbrk incr k
  obtain ⟨task, mm, cr3, heq, -⟩ := sysSbrk_eq incr k
  rw [heq] at hmm ⊢
  exact ⟨rfl, rfl, hmm⟩

theorem userStore {a : Addr} {v : Byte} (h : k.userStore a v = some k') : Undelivered k k' := by
  obtain ⟨mm, hmm, rfl⟩ := Option.map_eq_some_iff.mp h
  obtain ⟨e, -, hset⟩ := Option.bind_eq_some_iff.mp hmm
  obtain ⟨-, hset⟩ := Option.ite_none_right_eq_some.mp hset
  cases hset
  exact ⟨rfl, rfl, .of_table rfl⟩

end Undelivered

theorem KeysFault.readKeysLoop (h : k.KeysFault) (n : Nat) (buff : Addr)
    : Undelivered k (k.readKeysLoop n buff).2 := by
  cases n with
  | zero => exact .refl k
  | succ n =>
    rw [h.readKeysLoop_eq n.succ_pos buff]
    exact ⟨rfl, rfl, .refl _⟩

end Kernel

namespace Sys

open Kernel

variable {s s' : Sys} {r : Int}

theorem undelivered_waitKeyboard {buff : Addr} (h : s.waitKeyboard buff = some s')
    : Undelivered s.toKernel s'.toKernel := by
  obtain ⟨s₁, hs₁, h⟩ := Option.bind_eq_some_iff.mp h
  have hblocked : Undelivered s.toKernel (s₁.blockReading buff) := by
    rw [toKernel_mapLinks hs₁]
    exact ⟨rfl, rfl, .refl _⟩
  exact hblocked.trans (.of_undisturbed (.schedNextRr h))

theorem undelivered_readKeyboardBody (hfault : s.KeysFault) {buff : Addr}
    (h : s.readKeyboardBody buff = some s') : Undelivered s.toKernel s'.toKernel := by
  unfold readKeyboardBody at h
  dsimp only at h
  split at h
  next =>
    have hread := hfault.readKeysLoop (s.task s.current).requiredKeys.toNat buff
    split at h
    next =>
      cases h
      exact hread
    next =>
      cases h
      exact hread.trans ⟨rfl, rfl, .refl _⟩
  split at h
  next =>
    have hread := hfault.readKeysLoop cirBufferSize buff
    split at h
    next =>
      cases h
      exact hread
    next =>
      have hadded : Undelivered s.toKernel ((s.readKeysLoop cirBufferSize buff).2.addReadKeys cirBufferSize) :=
        hread.trans ⟨rfl, rfl, .refl _⟩
      exact hadded.trans (undelivered_waitKeyboard h)
  next => exact undelivered_waitKeyboard h

theorem undelivered_sysRead (hfault : s.KeysFault) {fd : Int} {buf : Addr} {count : Int}
    (h : s.sysRead fd buf count = some s') : Undelivered s.toKernel s'.toKernel := by
  cases sysRead_end h with
  | refused r => exact ⟨rfl, rfl, .refl _⟩
  | @queued s₁ s' hok hmoved hnext =>
    have hrequired : Undelivered s.toKernel (s.requireKeys count) := ⟨rfl, rfl, .refl _⟩
    have hwaits : Undelivered s₁.toKernel (s₁.setCont s₁.current (.readKeyboard buf)) := ⟨rfl, rfl, .refl _⟩
    have hqueued := (hrequired.trans (.of_undisturbed (.updateProcessStateRr hmoved))).trans hwaits
    exact hqueued.trans (.of_undisturbed (.schedNextRr hnext))
  | served hok hempty hbody =>
    have hrequired : Undelivered s.toKernel (s.requireKeys count) := ⟨rfl, rfl, .refl _⟩
    exact hrequired.trans (undelivered_readKeyboardBody (hfault.undelivered hrequired) hbody)

theorem undelivered_takeFree {new : Slot} (h : s.takeFree = some (new, s'))
    : Undelivered s.toKernel (s'.copyTask new).toKernel := by
  obtain ⟨-, hkernel⟩ := takeFree_eq_some h
  rw [← hkernel]
  exact ⟨rfl, rfl, .refl _⟩

theorem undelivered_sysFork (h : s.sysFork = some (r, s')) : Undelivered s.toKernel s'.toKernel := by
  have hchild : ∀ {new : Slot} {s₁ : Sys} {k : Kernel} {x : Bool × Kernel}, s.takeFree = some (new, s₁) →
      (s₁.copyTask new).allocateDIR new = some k → k.inheritPages new = some x →
      Undelivered s.toKernel x.2 := by
    intro new s₁ k x htake hdir hpages
    have hallocated : Undelivered (s₁.copyTask new).toKernel k := by
      obtain ⟨d, -, rfl⟩ := allocateDIR_eq_some hdir
      exact ⟨rfl, rfl, .refl _⟩
    exact ((undelivered_takeFree htake).trans hallocated).trans (.inheritPages hpages)
  cases sysFork_end h with
  | noSlot => exact .refl _
  | noDIR htake hdir => exact undelivered_takeFree htake
  | noFrame htake hdir hpages => exact hchild htake hdir hpages
  | created htake hdir hpages hready =>
    have hready := toKernel_makeReady hready
    rw [hready]
    exact (hchild htake hdir hpages).trans ⟨rfl, rfl, .refl _⟩

theorem undelivered_sysClone {function stack : Addr} (h : s.sysClone function stack = some (r, s'))
    : Undelivered s.toKernel s'.toKernel := by
  rcases sysClone_eq_some h with rfl | ⟨new, s₁, htake, hready⟩
  . exact .refl _
  . rw [toKernel_makeReady hready]
    exact (undelivered_takeFree htake).trans ⟨rfl, rfl, .refl _⟩

theorem undelivered_resume (hfault : s.KeysFault) (h : s.resume = some s')
    : Undelivered s.toKernel s'.toKernel := by
  unfold resume at h
  split at h
  next =>
    cases h
    exact ⟨rfl, rfl, .refl _⟩
  next =>
    cases h
    exact ⟨rfl, rfl, .refl _⟩
  next =>
    cases h
    exact ⟨rfl, rfl, .refl _⟩
  next => exact undelivered_readKeyboardBody hfault h

theorem undelivered_routine (hfault : s.KeysFault) {event : Event} (h : s.routine event = some s')
    : Undelivered s.toKernel s'.toKernel := by
  have hret : ∀ {x : Int × Sys}, Undelivered s.toKernel x.2.toKernel →
      Undelivered s.toKernel (result x).toKernel := fun hx => hx.trans ⟨rfl, rfl, .refl _⟩
  cases event with
  | fork =>
    obtain ⟨x, hx, rfl⟩ := Option.map_eq_some_iff.mp h
    exact hret (undelivered_sysFork hx)
  | clone function stack =>
    obtain ⟨x, hx, rfl⟩ := Option.map_eq_some_iff.mp h
    exact hret (undelivered_sysClone hx)
  | exit => exact (Undelivered.releaseDIR s.toKernel).trans (.of_undisturbed (.sysExit h))
  | semInit nSem value =>
    obtain ⟨x, hx, rfl⟩ := Option.map_eq_some_iff.mp h
    exact hret (.of_undisturbed (.sysSemInit hx))
  | semWait nSem => exact .of_undisturbed (.sysSemWait h)
  | semSignal nSem =>
    obtain ⟨x, hx, rfl⟩ := Option.map_eq_some_iff.mp h
    exact hret (.of_undisturbed (.sysSemSignal hx))
  | semDestroy nSem =>
    obtain ⟨x, hx, rfl⟩ := Option.map_eq_some_iff.mp h
    exact hret (.of_undisturbed (.sysSemDestroy hx))
  | read fd buf count => exact undelivered_sysRead hfault h
  | sbrk incr =>
    cases h
    exact (Undelivered.sysSbrk incr s.toKernel).trans ⟨rfl, rfl, .refl _⟩
  | clock =>
    have hsched := Undisturbed.schedule h
    exact .of_undisturbed ⟨hsched.copies, hsched.faultsStop, hsched.mm⟩
  | keyboard entrada beyond => exact .of_undisturbed (.keyboardRutine h)
  | store a v =>
    obtain ⟨k, hk, rfl⟩ := Option.map_eq_some_iff.mp h
    exact .userStore hk
  | resume => exact undelivered_resume hfault h

theorem stopped_of_step {i : Input} (h : s.step i = some s') : s.stopped = false := by
  obtain ⟨k, hentry, -⟩ := Option.bind_eq_some_iff.mp h
  exact (entry_eq_some.mp hentry).1

theorem undelivered_step (hfault : s.KeysFault) {i : Input} (h : s.step i = some s')
    : Undelivered s.toKernel s'.toKernel := by
  obtain ⟨k, hentry, hroutine⟩ := Option.bind_eq_some_iff.mp h
  have hentered : Undelivered s.toKernel k := .of_undisturbed (.entered hentry)
  exact hentered.trans
    (undelivered_routine (s := { s with toKernel := k }) (hfault.undelivered hentered) hroutine)

end Sys

theorem keysFault_boot (frames : Nat → Nat → Byte) : (Model.boot frames).KeysFault where
  stops := rfl
  null d := by
    rw [Model.mm_boot]
    apply Mm.KeepsNull.setUserPages 1
    have hfirst : Mm.getPT d % totalPages = 0 := Nat.mul_mod_right _ _
    have hinside : Mm.getPT d < nrTasks * totalPages := by
      rw [Mm.getPT, Nat.mul_comm]
      exact Nat.mul_lt_mul_of_pos_right d.isLt (by decide)
    show (if Mm.getPT d < nrTasks * totalPages then _ else _ : PageTableEntry).present = false
    rw [if_pos hinside, hfirst]
    rfl

end Zeos
