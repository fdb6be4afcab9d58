import Zeos.Spec.Handlers
import Zeos.Lemmas.Wrappers

/-!
An interrupt and its handler, which saves all that the routine and the tasks it switches to might change.
-/

namespace Zeos

open Descending

namespace Machine

variable {p a : Word} {top n : Nat} {u m : Machine} {x : Leftovers}

theorem savedWords_of_kernel (h : KernelLevel u.cs) : u.savedWords =
    [u.regs.ebx, u.regs.ecx, u.regs.edx, u.regs.esi, u.regs.edi, u.regs.ebp, u.regs.eax, u.ds.setWidth 32,
      u.es.setWidth 32, u.fs.setWidth 32, u.gs.setWidth 32, u.eip, u.cs.setWidth 32, u.eflags] := by
  unfold savedWords
  rw [if_pos h, List.append_nil]

theorem savedWords_of_user (h : ¬KernelLevel u.cs) : u.savedWords =
    [u.regs.ebx, u.regs.ecx, u.regs.edx, u.regs.esi, u.regs.edi, u.regs.ebp, u.regs.eax, u.ds.setWidth 32,
      u.es.setWidth 32, u.fs.setWidth 32, u.gs.setWidth 32, u.eip, u.cs.setWidth 32, u.eflags, u.esp,
      u.ss.setWidth 32] := by
  unfold savedWords
  rw [if_neg h]
  rfl

theorem length_savedWords (u : Machine) : 14 ≤ u.savedWords.length ∧ u.savedWords.length ≤ 16 := by
  by_cases h : KernelLevel u.cs
  . rw [savedWords_of_kernel h]
    simp
  . rw [savedWords_of_user h]
    simp

theorem toStack_saveAll (h : Interruptible p top u)
    : u.interrupt.saveAll.toStack = (Stack.mk (wordAt p top) u.mem).pushes u.savedWords.reverse := by
  unfold interrupt
  split
  next hlevel =>
    rw [savedWords_of_kernel hlevel, ← (h.kernel hlevel).1]
    rfl
  next hlevel =>
    obtain ⟨rfl, hesp0⟩ := h.user hlevel
    have hkernel : wordAt p kernelStackSize = u.esp0 := hesp0.symm
    rw [savedWords_of_user hlevel, hkernel]
    rfl

theorem enter_handler (handler : Handler) (h : Interruptible p top u) (hn : n + 2 + u.savedWords.length = top)
    : (handler.enter x u).esp = wordAt p (n + 1) ∧ (handler.enter x u).mem (wordAt p (n + 1)) = handler.afterRoutine ∧
        (∀ i v, u.savedWords[i]? = some v → (handler.enter x u).mem (wordAt p (n + 2 + i)) = v) ∧
        (∀ i < kernelStackSize, top ≤ i → (handler.enter x u).mem (wordAt p i) = u.mem (wordAt p i)) ∧
        ∀ a, page a ≠ p → (handler.enter x u).mem a = u.mem a := by
  have hstack := toStack_saveAll h
  obtain ⟨hp, ⟨hroom, htop⟩, -, -⟩ := h
  have hlength := length_savedWords u
  have hreverse : u.savedWords.reverse.length = u.savedWords.length := List.length_reverse
  have hsize : top ≤ 1024 := htop
  have hstart : (Stack.mk (wordAt p top) u.mem).esp = wordAt p (n + 2 + u.savedWords.reverse.length) := by
    rw [hreverse, hn]
  have hsave : u.interrupt.saveAll.esp = wordAt p (n + 1 + 1) := by
    rw [hstack]
    exact Stack.esp_pushes hstart
  have hstats : (u.interrupt.saveAll.statsCall x).esp = wordAt p (n + 1 + 1) := (esp_statsCall x _).trans hsave
  have hpush : (handler.enter x u).toStack =
      (u.interrupt.saveAll.statsCall x).toStack.push handler.afterRoutine := rfl
  have hword : ∀ i < kernelStackSize, n + 2 ≤ i →
      (handler.enter x u).mem (wordAt p i) = u.interrupt.saveAll.mem (wordAt p i) := by
    intro i hi hle
    rw [hpush, Stack.mem_push hp hp hstats (by omega) hi, if_neg (by omega)]
    exact mem_statsCall hp hsave (by omega) hp hi fun _ => by omega
  refine ⟨Stack.esp_push hstats, ?_, ?_, ?_, ?_⟩
  . rw [hpush, Stack.mem_push hp hp hstats (by omega) (by omega), if_pos ⟨rfl, rfl⟩]
  . intro i v hv
    have hi := (List.getElem?_eq_some_iff.mp hv).1
    rw [hword _ (by unfold kernelStackSize; omega) (by omega), hstack]
    exact Stack.mem_pushes hp hstart (by omega) (by rwa [List.reverse_reverse])
  . intro i hi hle
    rw [hword i hi (by omega), hstack]
    exact Stack.mem_pushes_of_outside hp hp hstart (by omega) hi fun _ => .inr (by omega)
  . intro a ha
    have hpushed : (handler.enter x u).mem a = (u.interrupt.saveAll.statsCall x).mem a := by
      rw [hpush]
      exact mem_push_of_page_ne hp ha hstats (by omega)
    rw [hpushed, mem_statsCall_of_page_ne hp ha hsave (by omega), hstack]
    exact mem_pushes_of_page_ne hp ha hstart (by omega)

theorem restoreAll_iretAny (h : Interruptible p top u) (hn : n + 1 + u.savedWords.length = top)
    (hesp : m.esp = wordAt p (n + 1)) (hss : KernelLevel u.cs → m.ss = u.ss)
    (hsaved : ∀ i v, u.savedWords[i]? = some v → m.mem (wordAt p (n + 1 + i)) = v)
    : GoesOn u m.restoreAll.iretAny := by
  have hrestore : m.restoreAll =
      { m with
        esp := wordAt p (n + 12)
        regs := u.regs
        ds := u.ds
        es := u.es
        fs := u.fs
        gs := u.gs } := by
    rw [restoreAll_eq hesp, hsaved 0 _ rfl, hsaved 1 _ rfl, hsaved 2 _ rfl, hsaved 3 _ rfl, hsaved 4 _ rfl,
      hsaved 5 _ rfl, hsaved 6 _ rfl, hsaved 7 _ rfl, hsaved 8 _ rfl, hsaved 9 _ rfl, hsaved 10 _ rfl,
      setWidth_segment, setWidth_segment, setWidth_segment, setWidth_segment]
  have haddr : ∀ i, wordAt p (n + 12) + BitVec.ofNat 32 (4 * i) = wordAt p (n + 1 + (11 + i)) := by
    intro i
    rw [wordAt_add]
    exact congrArg (wordAt p) (by omega)
  have h1 : wordAt p (n + 12) + 4 = wordAt p (n + 1 + 12) := haddr 1
  have h2 : wordAt p (n + 12) + 8 = wordAt p (n + 1 + 13) := haddr 2
  have h3 : wordAt p (n + 12) + 12 = wordAt p (n + 1 + 14) := haddr 3
  have h4 : wordAt p (n + 12) + 16 = wordAt p (n + 1 + 15) := haddr 4
  have hcs : (m.mem (wordAt p (n + 12) + 4)).setWidth 16 = u.cs := by
    rw [h1, hsaved 12 _ rfl, setWidth_segment]
  have heip : m.mem (wordAt p (n + 12)) = u.eip := hsaved 11 _ rfl
  have heflags : m.mem (wordAt p (n + 12) + 8) = u.eflags := by
    rw [h2, hsaved 13 _ rfl]
  rw [hrestore]
  unfold iretAny
  dsimp only
  rw [hcs]
  split
  next hlevel =>
    obtain ⟨hstart, -, -⟩ := h.kernel hlevel
    rw [savedWords_of_kernel hlevel] at hn
    have hend : wordAt p (n + 12) + 12 = u.esp := by
      rw [hstart, h3]
      exact congrArg (wordAt p) hn
    exact ⟨rfl, hend, heip, heflags, rfl, hss hlevel, rfl, rfl, rfl, rfl⟩
  next hlevel =>
    have hsp : m.mem (wordAt p (n + 12) + 12) = u.esp := by
      rw [h3]
      exact hsaved 14 _ (by rw [savedWords_of_user hlevel]; rfl)
    have hsegment : (m.mem (wordAt p (n + 12) + 16)).setWidth 16 = u.ss := by
      rw [h4, hsaved 15 (u.ss.setWidth 32) (by rw [savedWords_of_user hlevel]; rfl), setWidth_segment]
    exact ⟨rfl, hsp, heip, heflags, hcs, hsegment, rfl, rfl, rfl, rfl⟩

theorem leave_handler (h : Interruptible p top u) (hn : n + 1 + u.savedWords.length = top)
    (hesp : m.esp = wordAt p (n + 1)) (hss : KernelLevel u.cs → m.ss = u.ss)
    (hsaved : ∀ i v, u.savedWords[i]? = some v → m.mem (wordAt p (n + 1 + i)) = v) (x : Leftovers)
    : GoesOn u (Handler.leave x m) := by
  have hlength := length_savedWords u
  obtain ⟨hroom, htop⟩ := h.room
  have hsize : top ≤ 1024 := htop
  have hstats : (m.statsCall x).esp = wordAt p (n + 1) := (esp_statsCall x m).trans hesp
  change GoesOn u (m.statsCall x).restoreAll.iretAny
  refine restoreAll_iretAny h hn hstats hss ?_
  intro i v hv
  have hi := (List.getElem?_eq_some_iff.mp hv).1
  rw [mem_statsCall h.aligned hesp (by omega) h.aligned (by unfold kernelStackSize; omega) fun _ => by omega]
  exact hsaved i v hv

theorem mem_handlerLeave (x : Leftovers) (m : Machine) : (Handler.leave x m).mem = (m.statsCall x).mem := by
  have hleave : Handler.leave x m = (m.statsCall x).restoreAll.iretAny := rfl
  rw [hleave]
  unfold iretAny
  dsimp only
  split
  . rfl
  . rfl

theorem ss_enter_handler (handler : Handler) (x : Leftovers) (h : KernelLevel u.cs)
    : (handler.enter x u).ss = u.ss := by
  have hkeep : ∀ q : Machine, ((q.saveAll.pushEax.callC x).popEax.eoi.push handler.afterRoutine).ss = q.ss :=
    fun _ => by simp only [push, eoi, popEax, popl, callC, pushEax, saveAll, pushes]
  have hss : u.interrupt.ss = u.ss := by
    unfold interrupt
    rw [if_pos h]
    rfl
  unfold Handler.enter
  rw [hkeep, hss]

/--
Whatever the routine of a handler does, with switches to other tasks or without, the code that is interrupted goes on
as if nothing had happened, in user mode and in the kernel. What it finds changed in memory the routine has changed.
-/
theorem handler_transparent (handler : Handler) (h : Interruptible p top u) (x : Leftovers)
    : ∀ m z z' r, ServiceEnds p (handler.enter x u) m →
        ((handler.enter x u).returnC z r m).eip = handler.afterRoutine ∧
        GoesOn u (Handler.leave z' ((handler.enter x u).returnC z r m)) ∧
        (∀ i < kernelStackSize, top ≤ i →
          (Handler.leave z' ((handler.enter x u).returnC z r m)).mem (wordAt p i) = u.mem (wordAt p i)) ∧
        ∀ a, page a ≠ p → (Handler.leave z' ((handler.enter x u).returnC z r m)).mem a = m.mem a := by
  intro m z z' r hends
  have hp := h.aligned
  have hlength := length_savedWords u
  obtain ⟨hroom, htop⟩ := h.room
  have hsize : top ≤ 1024 := htop
  obtain ⟨n, hn⟩ : ∃ n, n + 2 + u.savedWords.length = top :=
    ⟨top - u.savedWords.length - 2, by omega⟩
  obtain ⟨hesp, hret, hsaved, habove, hout⟩ := enter_handler (x := x) handler h hn
  have hkept : ∀ i < kernelStackSize, n + 1 ≤ i →
      m.mem (wordAt p i) = (handler.enter x u).mem (wordAt p i) := by
    intro i hi hle
    apply hends.words i hi
    rw [hesp, hp.toNat_wordAt (by omega), hp.toNat_wordAt hi]
    omega
  have hebp : m.regs.ebp = wordAt p n := by
    rw [hends.ebp, hesp]
    exact wordAt_sub p n
  obtain ⟨hespr, -, hmemr⟩ := returnC_eq hebp z r (handler.enter x u)
  have heip : ((handler.enter x u).returnC z r m).eip = m.mem (wordAt p (n + 1)) := by
    simp [returnC, popl, Machine.ret, hebp, wordAt_succ]
  have hsaved' : ∀ i v, u.savedWords[i]? = some v →
      ((handler.enter x u).returnC z r m).mem (wordAt p (n + 1 + 1 + i)) = v := by
    intro i v hv
    have hi := (List.getElem?_eq_some_iff.mp hv).1
    rw [hmemr, hkept _ (by unfold kernelStackSize; omega) (by omega)]
    exact hsaved i v hv
  refine ⟨?_, ?_, ?_, ?_⟩
  . rw [heip, hkept _ (by unfold kernelStackSize; omega) (by omega), hret]
  . refine leave_handler h hn hespr ?_ hsaved' z'
    intro hlevel
    have hssr : ((handler.enter x u).returnC z r m).ss = m.ss := by
      simp only [returnC, popl, Machine.ret]
    rw [hssr, hends.ss, ss_enter_handler handler x hlevel]
  . intro i hi hle
    rw [mem_handlerLeave, mem_statsCall hp hespr (by omega) hp hi fun _ => by omega, hmemr, hkept i hi (by omega)]
    exact habove i hi hle
  . intro a ha
    rw [mem_handlerLeave, mem_statsCall_of_page_ne hp ha hespr (by omega), hmemr]

section Interrupted

open Switching

def someHandlerLabels : HandlerLabels where
  afterClockRutine := 0x10500
  afterKeyboardRutine := 0x10600

def userProcess : Machine :=
  { zeroMachine with esp := 0x11EF00, eip := 0x100200, cs := userCS, ss := userDS, esp0 := kernelEsp 0x51000 }

def idleLoop : Machine :=
  { zeroMachine with esp := wordAt 0x50000 1000, eip := 0x10700, cs := kernelCS, ss := kernelDS }

theorem interruptible_userProcess : Interruptible 0x51000 kernelStackSize userProcess :=
  ⟨by decide, by decide, fun _ => ⟨rfl, rfl⟩, fun h => absurd h (by decide)⟩

theorem interruptible_idleLoop : Interruptible 0x50000 1000 idleLoop :=
  ⟨by decide, by decide, fun h => absurd (by decide) h, fun _ => ⟨rfl, rfl, rfl⟩⟩

theorem serviceEnds_self (p : Word) (k : Machine)
    : ServiceEnds p k { k with regs := { k.regs with ebp := k.esp - 4 } } :=
  ⟨rfl, rfl, fun _ _ _ => rfl⟩

theorem handler_transparent_both
    : (let k := (clockHandler someHandlerLabels).enter zeroLeftovers userProcess
       let m := { k with regs := { k.regs with ebp := k.esp - 4 } }
       GoesOn userProcess (Handler.leave zeroLeftovers (k.returnC zeroLeftovers 0 m))) ∧
      (let k := (keyboardHandler someHandlerLabels).enter zeroLeftovers idleLoop
       let m := { k with regs := { k.regs with ebp := k.esp - 4 } }
       GoesOn idleLoop (Handler.leave zeroLeftovers (k.returnC zeroLeftovers 0 m))) := by
  constructor
  . exact (handler_transparent _ interruptible_userProcess zeroLeftovers _ zeroLeftovers zeroLeftovers 0
      (serviceEnds_self _ _)).2.1
  . exact (handler_transparent _ interruptible_idleLoop zeroLeftovers _ zeroLeftovers zeroLeftovers 0
      (serviceEnds_self _ _)).2.1

end Interrupted

end Machine

end Zeos
