import Zeos.Spec.Wrappers
import Zeos.Lemmas.Trap

/-!
A call through `wrappers.S` and back: first the stack of the user on the way in, then the kernel, which leaves that
stack alone, then the way out.
-/

namespace Zeos

open Descending

section Words

variable {b v : Word} {i j n : Nat} {m : Machine}

theorem wordAt_eq_iff (hi : i < 1024) (hj : j < 1024) : wordAt b i = wordAt b j ↔ i = j := by
  unfold wordAt
  rw [BitVec.add_right_inj]
  constructor
  . intro heq
    have hnat := congrArg BitVec.toNat heq
    rw [BitVec.toNat_ofNat, BitVec.toNat_ofNat] at hnat
    omega
  . rintro rfl
    rfl

theorem esp_eq_libFrame (u : Machine) : u.esp = wordAt u.libFrame 4 := by
  unfold wordAt Machine.libFrame
  exact (BitVec.sub_add_cancel u.esp 16).symm

theorem page_eq_of_between {a s : Word} (hle : (page s).toNat ≤ a.toNat) (hlt : a.toNat < s.toNat)
    : page a = page s := by
  apply BitVec.eq_of_toNat_eq
  rw [toNat_page] at hle
  rw [toNat_page, toNat_page]
  omega

namespace Machine

theorem popl_eq (h : m.esp = wordAt b n) (set : Word → Regs → Regs) : m.popl set =
    { m with esp := wordAt b (n + 1), regs := set (m.mem (wordAt b n)) m.regs } := by
  have hnext : wordAt b n + 4 = wordAt b (n + 1) := wordAt_succ b n
  unfold popl
  rw [h, hnext]

theorem ret_eq (h : m.esp = wordAt b n) : m.ret =
    { m with esp := wordAt b (n + 1), eip := m.mem (wordAt b n) } := by
  have hnext : wordAt b n + 4 = wordAt b (n + 1) := wordAt_succ b n
  unfold Machine.ret
  rw [h, hnext]

theorem loadParameters_eq (h : m.regs.ebp = wordAt b n) (count : Nat) : m.loadParameters count =
    { m with
      regs := { m.regs with
                ebx := if 1 ≤ count then m.mem (wordAt b (n + 2)) else m.regs.ebx
                ecx := if 2 ≤ count then m.mem (wordAt b (n + 3)) else m.regs.ecx
                edx := if 3 ≤ count then m.mem (wordAt b (n + 4)) else m.regs.edx } } := by
  have h2 : wordAt b n + 8 = wordAt b (n + 2) := wordAt_add b n 2
  have h3 : wordAt b n + 12 = wordAt b (n + 3) := wordAt_add b n 3
  have h4 : wordAt b n + 16 = wordAt b (n + 4) := wordAt_add b n 4
  unfold loadParameters movl
  split
  . split
    . split
      . simp only [h, h2, h3, h4]
      . simp only [h, h2, h3]
    . split
      . simp only [h, h2, h4]
      . simp only [h, h2]
  . split
    . split
      . simp only [h, h3, h4]
      . simp only [h, h3]
    . split
      . simp only [h, h4]
      . rfl

theorem syscallEnter_eq (h : m.esp = wordAt b (n + 2)) (ret number : Word) : m.syscallEnter ret number =
    { m with
      esp := wordAt b n
      mem := Function.update (Function.update m.mem (wordAt b (n + 1)) ret) (wordAt b n) m.regs.ebp
      regs := { m.regs with eax := number, ebp := wordAt b n } } := by
  have h1 : wordAt b (n + 2) - 4#32 = wordAt b (n + 1) := wordAt_sub b (n + 1)
  have h0 : wordAt b (n + 1) - 4#32 = wordAt b n := wordAt_sub b n
  simp [syscallEnter, setEax, pushEax, pushEbp, push, Stack.push, movEspEbp, h, h1, h0]

theorem syscallReturn_eq (h : m.esp = wordAt b n) (flags : Word) : m.syscallReturn flags =
    { m with
      esp := wordAt b (n + 2)
      eflags := flags
      regs := { m.regs with ebp := m.mem (wordAt b n) } } := by
  have hnext : wordAt b (n + 1) + 4 = wordAt b (n + 2) := wordAt_succ b (n + 1)
  have hpop : m.popEbp = { m with
      esp := wordAt b (n + 1), regs := { m.regs with ebp := m.mem (wordAt b n) } } := popl_eq h _
  unfold syscallReturn
  rw [hpop]
  dsimp only
  rw [hnext]

theorem prologue_eq (h : m.esp = wordAt b (n + 2)) : m.pushEbp.movEspEbp.pushEbx =
    { m with
      esp := wordAt b n
      mem := Function.update (Function.update m.mem (wordAt b (n + 1)) m.regs.ebp) (wordAt b n) m.regs.ebx
      regs := { m.regs with ebp := wordAt b (n + 1) } } := by
  have h1 : wordAt b (n + 2) - 4#32 = wordAt b (n + 1) := wordAt_sub b (n + 1)
  have h0 : wordAt b (n + 1) - 4#32 = wordAt b n := wordAt_sub b n
  simp [pushEbx, pushEbp, push, Stack.push, movEspEbp, h, h1, h0]

theorem epilogue_eq (h : m.esp = wordAt b n) : m.popEbx.popEbp.ret =
    { m with
      esp := wordAt b (n + 3)
      eip := m.mem (wordAt b (n + 2))
      regs := { m.regs with ebx := m.mem (wordAt b n), ebp := m.mem (wordAt b (n + 1)) } } := by
  simp [popEbx, popEbp, popl, Machine.ret, h, wordAt_succ]

end Machine

end Words

section Enter

variable {labels : UserLabels} {b n : Word} {count : Nat} {u : Machine}

namespace Wrappers

theorem enter_checked (h : u.esp = wordAt b 4) : (checked labels count n).enter u =
    { u with
      esp := wordAt b 0
      mem := Function.update (Function.update (Function.update (Function.update u.mem
        (wordAt b 3) u.regs.ebp) (wordAt b 2) u.regs.ebx) (wordAt b 1) (labels.syscallRet n)) (wordAt b 0) (wordAt b 3)
      regs := { u.regs with
                eax := n
                ebx := if 1 ≤ count then u.mem (wordAt b 5) else u.regs.ebx
                ecx := if 2 ≤ count then u.mem (wordAt b 6) else u.regs.ecx
                edx := if 3 ≤ count then u.mem (wordAt b 7) else u.regs.edx
                ebp := wordAt b 0 } } := by
  have hstart : (checked labels count n).enter u =
      (u.pushEbp.movEspEbp.pushEbx.loadParameters count).syscallEnter (labels.syscallRet n) n := rfl
  rw [hstart, Machine.prologue_eq (n := 2) h, Machine.loadParameters_eq (n := 3) rfl,
    Machine.syscallEnter_eq (n := 0) rfl]
  simp [wordAt_eq_iff]

theorem enter_plain (h : u.esp = wordAt b 4) : (plain labels n).enter u =
    { u with
      esp := wordAt b 1
      mem := Function.update (Function.update (Function.update u.mem
        (wordAt b 3) u.regs.ebp) (wordAt b 2) (labels.syscallRet n)) (wordAt b 1) (wordAt b 3)
      regs := { u.regs with eax := n, ebp := wordAt b 1 } } := by
  have hsub : wordAt b 4 - 4#32 = wordAt b 3 := wordAt_sub b 3
  have hstart : (plain labels n).enter u = u.pushEbp.movEspEbp.syscallEnter (labels.syscallRet n) n := rfl
  have hprologue : u.pushEbp.movEspEbp = { u with
      esp := wordAt b 3
      mem := Function.update u.mem (wordAt b 3) u.regs.ebp
      regs := { u.regs with ebp := wordAt b 3 } } := by
    simp [Machine.pushEbp, Machine.push, Stack.push, Machine.movEspEbp, h, hsub]
  rw [hstart, hprologue, Machine.syscallEnter_eq (n := 1) rfl]

theorem enter_write (h : u.esp = wordAt b 4) : (write labels).enter u =
    { u with
      eip := labels.returntrap
      esp := wordAt b 2
      mem := Function.update (Function.update u.mem (wordAt b 3) u.regs.ebp) (wordAt b 2) u.regs.ebx
      regs := { u.regs with
                eax := 0x04
                ebx := u.mem (wordAt b 5)
                ecx := u.mem (wordAt b 6)
                edx := u.mem (wordAt b 7)
                ebp := wordAt b 3 } } := by
  have hstart : (write labels).enter u =
      { (u.pushEbp.movEspEbp.pushEbx.loadParameters 3).setEax 0x04 with eip := labels.returntrap } := rfl
  rw [hstart, Machine.prologue_eq (n := 2) h, Machine.loadParameters_eq (n := 3) rfl]
  simp [Machine.setEax, wordAt_eq_iff]

end Wrappers

end Enter

section Finish

variable {labels : UserLabels} {b n flags : Word} {count : Nat} {t : Machine}

theorem checkError_eq (errno flags : Word) (m : Machine) : m.checkError errno flags =
    { m with
      eflags := flags
      mem := if m.regs.eax.toInt < 0 then Function.update m.mem errno (-m.regs.eax) else m.mem
      regs := { m.regs with
                eax := if m.regs.eax.toInt < 0 then -1 else m.regs.eax
                ebx := if m.regs.eax.toInt < 0 then errno else m.regs.ebx } } := by
  unfold Machine.checkError
  dsimp only
  split
  next h => rw [if_neg (Int.not_lt.mpr h), if_neg (Int.not_lt.mpr h), if_neg (Int.not_lt.mpr h)]
  next h => rw [if_pos (Int.not_le.mp h), if_pos (Int.not_le.mp h), if_pos (Int.not_le.mp h)]; rfl

/-- What the caller finds, but for `%eax` and `errno` -/
structure Unwound (b : Word) (t t' : Machine) : Prop where
  esp : t'.esp = wordAt b 5
  eip : t'.eip = t.mem (wordAt b 4)
  ebp : t'.regs.ebp = t.mem (wordAt b 3)
  esi : t'.regs.esi = t.regs.esi
  edi : t'.regs.edi = t.regs.edi
  cs : t'.cs = t.cs
  ss : t'.ss = t.ss
  ds : t'.ds = t.ds
  es : t'.es = t.es
  fs : t'.fs = t.fs
  gs : t'.gs = t.gs

structure Checked (errno : Word) (t t' : Machine) : Prop where
  eax : t'.regs.eax = if t.regs.eax.toInt < 0 then -1 else t.regs.eax
  mem : t'.mem = if t.regs.eax.toInt < 0 then Function.update t.mem errno (-t.regs.eax) else t.mem

namespace Wrappers

variable (herrno : ∀ i < 5, labels.errno ≠ wordAt b i)
include herrno

theorem mem_errno (f : Word → Word) (v : Word) {i : Nat} (hi : i < 5) {P : Prop} [Decidable P]
    : (if P then Function.update f labels.errno v else f) (wordAt b i) = f (wordAt b i) := by
  split
  . exact Function.update_of_ne (herrno i hi).symm v f
  . rfl

theorem finish_checked (h : t.esp = wordAt b 0)
    : Unwound b t ((checked labels count n).finish flags t) ∧
        Checked labels.errno t ((checked labels count n).finish flags t) ∧
          ((checked labels count n).finish flags t).regs.ebx = t.mem (wordAt b 2) := by
  have hfinish : (checked labels count n).finish flags t =
      ((t.syscallReturn flags).checkError labels.errno flags).popEbx.popEbp.ret := rfl
  rw [hfinish, Machine.syscallReturn_eq h, checkError_eq, Machine.epilogue_eq (n := 2) rfl]
  exact ⟨⟨rfl, mem_errno herrno _ _ (by decide), mem_errno herrno _ _ (by decide), rfl, rfl, rfl, rfl, rfl, rfl, rfl,
    rfl⟩, ⟨rfl, rfl⟩, mem_errno herrno _ _ (by decide)⟩

theorem finish_write (h : t.esp = wordAt b 2)
    : Unwound b t ((write labels).finish flags t) ∧ Checked labels.errno t ((write labels).finish flags t) ∧
        ((write labels).finish flags t).regs.ebx = t.mem (wordAt b 2) := by
  -- Without the detour of the address of `errno` through `%ebx` the check is the same.
  have hcheck : (write labels).finish flags t =
      ({ t with
         eflags := flags
         mem := if t.regs.eax.toInt < 0 then Function.update t.mem labels.errno (-t.regs.eax) else t.mem
         regs := { t.regs with
                   eax := if t.regs.eax.toInt < 0 then -1 else t.regs.eax } } : Machine).popEbx.popEbp.ret := by
    unfold write
    dsimp only
    split
    next hle => rw [if_neg (Int.not_lt.mpr hle), if_neg (Int.not_lt.mpr hle)]
    next hlt => rw [if_pos (Int.not_le.mp hlt), if_pos (Int.not_le.mp hlt)]; rfl
  rw [hcheck, Machine.epilogue_eq (b := b) (n := 2)]
  . exact ⟨⟨rfl, mem_errno herrno _ _ (by decide), mem_errno herrno _ _ (by decide), rfl, rfl, rfl, rfl, rfl, rfl, rfl,
      rfl⟩, ⟨rfl, rfl⟩, mem_errno herrno _ _ (by decide)⟩
  . exact h

omit herrno

theorem finish_plain (labels : UserLabels) (n flags : Word) (h : t.esp = wordAt b 1)
    : Unwound b t ((plain labels n).finish flags t) ∧ ((plain labels n).finish flags t).regs.eax = t.regs.eax ∧
        ((plain labels n).finish flags t).mem = t.mem ∧
          ((plain labels n).finish flags t).regs.ebx = t.regs.ebx := by
  have hfinish : (plain labels n).finish flags t = (t.syscallReturn flags).popEbp.ret := rfl
  have hpop : (t.syscallReturn flags).popEbp = _ :=
    Machine.popl_eq (m := t.syscallReturn flags) (b := b) (n := 3) (by rw [Machine.syscallReturn_eq h]) _
  rw [hfinish, hpop, Machine.ret_eq (n := 4) rfl, Machine.syscallReturn_eq h]
  exact ⟨⟨rfl, rfl, rfl, rfl, rfl, rfl, rfl, rfl, rfl, rfl, rfl⟩, rfl, rfl, rfl⟩

end Wrappers

end Finish

section Kernel

variable {p a v : Word} {n : Nat} {s : Stack} {vs : List Word} {m u : Machine} {x : Leftovers} {way : Way}

theorem mem_push_of_page_ne (hp : Aligned p) (ha : page a ≠ p) (h : s.esp = wordAt p (n + 1)) (hn : n < 1024)
    : (s.push v).mem a = s.mem a := by
  unfold Stack.push
  dsimp only
  rw [h, wordAt_sub]
  refine Function.update_of_ne ?_ _ _
  rintro rfl
  exact ha (hp.page_wordAt hn)

theorem mem_pushes_of_page_ne (hp : Aligned p) (ha : page a ≠ p) (h : s.esp = wordAt p (n + vs.length))
    (hn : n + vs.length ≤ 1024) : (s.pushes vs).mem a = s.mem a := by
  induction vs generalizing s with
  | nil => rfl
  | cons v vs ih =>
    rw [List.length_cons] at hn
    have h' : s.esp = wordAt p (n + vs.length + 1) := h
    rw [Stack.pushes_cons, ih (Stack.esp_push h') (by omega), mem_push_of_page_ne hp ha h' (by omega)]

theorem mem_leaveBelow_of_page_ne (hp : Aligned p) (ha : page a ≠ p) (h : s.esp = wordAt p n) (hn : n < 1024)
    (below : Word → Word) : (leaveBelow below s).mem a = s.mem a := by
  refine if_neg ?_
  rintro ⟨hle, hlt⟩
  have hpage : page a = page s.esp := page_eq_of_between (by omega) hlt
  rw [h, hp.page_wordAt hn] at hpage
  exact ha hpage

namespace Machine

theorem mem_statsCall_of_page_ne (hp : Aligned p) (ha : page a ≠ p) (h : m.esp = wordAt p (n + 1))
    (hn : n < 1024) (x : Leftovers) : (m.statsCall x).mem a = m.mem a := by
  have hpush : (m.statsCall x).mem a = (m.toStack.push m.regs.eax).mem a :=
    mem_leaveBelow_of_page_ne hp ha (Stack.esp_push h) hn _
  rw [hpush]
  exact mem_push_of_page_ne hp ha h hn

theorem mem_leave_of_page_ne (hp : Aligned p) (ha : page a ≠ p) (h : m.esp = wordAt p (n + 1))
    (hn : n + 7 < 1024) (way : Way) (x : Leftovers) : (m.leave way x).mem a = m.mem a := by
  have hslot : wordAt p (n + 1) + 0x18 = wordAt p (n + 7) := wordAt_add p (n + 1) 6
  have hne : a ≠ wordAt p (n + 7) := by
    rintro rfl
    exact ha (hp.page_wordAt (by omega))
  cases way with
  | int80 =>
    have hleave : (m.leave .int80 x).mem =
      ((m.statsCall x).store ((m.statsCall x).esp + 0x18) (m.statsCall x).regs.eax).mem := rfl
    rw [hleave, esp_statsCall, h, hslot]
    exact (Function.update_of_ne hne _ _).trans (mem_statsCall_of_page_ne hp ha h (by omega) x)
  | sysenter =>
    have hleave : (m.leave .sysenter x).mem = ((m.store (m.esp + 0x18) m.regs.eax).statsCall x).mem := rfl
    have hesp : (m.store (wordAt p (n + 7)) m.regs.eax).esp = wordAt p (n + 1) := h
    rw [hleave, h, hslot, mem_statsCall_of_page_ne hp ha hesp (by omega) x]
    exact Function.update_of_ne hne _ _

variable (hp : Aligned p) (hesp0 : u.esp0 = kernelEsp p) (hmsr : u.msr175 = kernelEsp p)
include hp hesp0 hmsr

theorem mem_trap_of_page_ne (ha : page a ≠ p) (way : Way) : (u.trap way).mem a = u.mem a := by
  obtain ⟨ss, eflags, cs, eip, heq, -⟩ := toStack_trap hesp0 hmsr (n := 1008) rfl way
  rw [heq]
  exact mem_pushes_of_page_ne hp ha (n := 1019) rfl (by simp)

theorem mem_enterRoutine_of_page_ne (ha : page a ≠ p) (labels : Labels) (way : Way) (x : Leftovers)
    : (u.enterRoutine labels way x).mem a = u.mem a := by
  have hesp := esp_trap hesp0 hmsr (n := 1008) rfl way
  have hsave := esp_saveAll hesp0 hmsr (n := 1008) rfl way
  have hpush : (u.enterRoutine labels way x).mem a = ((u.trap way).saveAll.statsCall x).mem a :=
    mem_push_of_page_ne hp ha (n := 1007) ((esp_statsCall x _).trans hsave) (by decide)
  have hpushes : (u.trap way).saveAll.mem a = (u.trap way).mem a :=
    mem_pushes_of_page_ne hp ha (n := 1008) hesp (by simp)
  rw [hpush, mem_statsCall_of_page_ne hp ha (n := 1007) hsave (by decide), hpushes,
    mem_trap_of_page_ne hp hesp0 hmsr ha]

theorem eax_enterRoutine (labels : Labels) (way : Way) (x : Leftovers)
    : (u.enterRoutine labels way x).regs.eax = u.regs.eax := by
  have hsave := esp_saveAll hesp0 hmsr (n := 1008) rfl way
  have hregs : (u.enterRoutine labels way x).regs = ((u.trap way).saveAll.statsCall x).regs := rfl
  rw [hregs, regs_statsCall hp (n := 1007) hsave (by decide)]
  cases way with
  | int80 => rfl
  | sysenter => rfl

omit hesp0 in
theorem userEip_sysenter (hout : page (u.regs.ebp + 4) ≠ p)
    : u.userEip .sysenter = u.mem (u.regs.ebp + 4) := by
  have htop : u.userEip .sysenter =
      ((Stack.mk u.msr175 u.mem).pushes [userDS.setWidth 32, u.regs.ebp, disableInt u.eflags, userCS.setWidth 32]).mem
        (u.regs.ebp + 4) := Function.update_self ..
  rw [htop]
  exact mem_pushes_of_page_ne hp hout (n := 1020) hmsr (by simp)

omit hp hesp0 hmsr in
theorem userEip_int80 (u : Machine) : u.userEip .int80 = u.eip :=
  Function.update_self ..

end Machine

end Kernel

section Calls

open Machine

variable {labels : UserLabels} {kernel : Labels} {c : LibCall} {p a r flags : Word} {u m : Machine} {x z z' : Leftovers}

/-- There are two families of functions, and `write`. -/
theorem wrapper_cases (labels : UserLabels) (c : LibCall)
    : (∃ n, c.wrapper labels = Wrappers.plain labels n ∧ c.parameters = 0 ∧ c ∈ [.gettime, .getpid, .exit] ∧
        sysCallTable[n.toNat]? = some c.routine) ∨
      (∃ n, c.wrapper labels = Wrappers.checked labels c.parameters n ∧ c ∉ [.gettime, .getpid, .exit] ∧
        sysCallTable[n.toNat]? = some c.routine) ∨
      c = .write := by
  cases c with
  | gettime => exact .inl ⟨10, rfl, rfl, by decide, rfl⟩
  | writefast => exact .inr (.inl ⟨4, rfl, by decide, rfl⟩)
  | read => exact .inr (.inl ⟨30, rfl, by decide, rfl⟩)
  | sbrk => exact .inr (.inl ⟨31, rfl, by decide, rfl⟩)
  | write => exact .inr (.inr rfl)
  | getpid => exact .inl ⟨20, rfl, rfl, by decide, rfl⟩
  | fork => exact .inr (.inl ⟨2, rfl, by decide, rfl⟩)
  | exit => exact .inl ⟨1, rfl, rfl, by decide, rfl⟩
  | getStats => exact .inr (.inl ⟨35, rfl, by decide, rfl⟩)
  | clone => exact .inr (.inl ⟨19, rfl, by decide, rfl⟩)
  | semInit => exact .inr (.inl ⟨21, rfl, by decide, rfl⟩)
  | semWait => exact .inr (.inl ⟨22, rfl, by decide, rfl⟩)
  | semSignal => exact .inr (.inl ⟨23, rfl, by decide, rfl⟩)
  | semDestroy => exact .inr (.inl ⟨24, rfl, by decide, rfl⟩)

theorem parameters_le (c : LibCall) : c.parameters ≤ 3 := by
  cases c with
  | gettime | getpid | fork | exit => exact Nat.zero_le 3
  | sbrk | semWait | semSignal | semDestroy => exact (by decide : 1 ≤ 3)
  | getStats | clone | semInit => exact (by decide : 2 ≤ 3)
  | writefast | read | write => exact Nat.le_refl 3

structure AtTrap (labels : UserLabels) (c : LibCall) (u v : Machine) : Prop where
  number : sysCallTable[v.regs.eax.toNat]? = some c.routine
  parameters : ∀ i < c.parameters, [v.regs.ebx, v.regs.ecx, v.regs.edx][i]? = some (u.mem (wordAt u.libFrame (i + 5)))
  ebx : c.parameters = 0 → v.regs.ebx = u.regs.ebx
  esi : v.regs.esi = u.regs.esi
  edi : v.regs.edi = u.regs.edi
  esp0 : v.esp0 = u.esp0
  msr175 : v.msr175 = u.msr175
  cs : v.cs = u.cs
  ss : v.ss = u.ss
  ds : v.ds = u.ds
  es : v.es = u.es
  fs : v.fs = u.fs
  gs : v.gs = u.gs
  kept : ∀ a, (∀ i < 4, a ≠ wordAt u.libFrame i) → v.mem a = u.mem a
  ebp : v.mem (wordAt u.libFrame 3) = u.regs.ebp

theorem atTrap_enter (labels : UserLabels) (c : LibCall) (u : Machine)
    : AtTrap labels c u ((c.wrapper labels).enter u) := by
  have hesp := esp_eq_libFrame u
  rcases wrapper_cases labels c with ⟨n, hw, hcount, -, hn⟩ | ⟨n, hw, -, hn⟩ | rfl
  . rw [hw, Wrappers.enter_plain hesp]
    refine ⟨hn, ?_, fun _ => rfl, rfl, rfl, rfl, rfl, rfl, rfl, rfl, rfl, rfl, rfl, ?_, ?_⟩
    . intro i hi
      omega
    . intro a ha
      simp [ha]
    . simp [wordAt_eq_iff]
  . rw [hw, Wrappers.enter_checked hesp]
    refine ⟨hn, ?_, ?_, rfl, rfl, rfl, rfl, rfl, rfl, rfl, rfl, rfl, rfl, ?_, ?_⟩
    . intro i hi
      have hle := parameters_le c
      match i, hi with
      | 0, hi => exact congrArg some (if_pos hi)
      | 1, hi => exact congrArg some (if_pos hi)
      | 2, hi => exact congrArg some (if_pos hi)
      | i + 3, hi => omega
    . intro h
      exact if_neg (by omega)
    . intro a ha
      simp [ha]
    . simp [wordAt_eq_iff]
  . have hw : LibCall.write.wrapper labels = Wrappers.write labels := rfl
    rw [hw, Wrappers.enter_write hesp]
    refine ⟨rfl, ?_, ?_, rfl, rfl, rfl, rfl, rfl, rfl, rfl, rfl, rfl, rfl, ?_, ?_⟩
    . intro i hi
      match i, hi with
      | 0, _ => rfl
      | 1, _ => rfl
      | 2, _ => rfl
    . intro h
      cases h
    . intro a ha
      simp [ha]
    . simp [wordAt_eq_iff]

theorem userEip_enter (h : CallsLib p u) (labels : UserLabels) (c : LibCall)
    : ((c.wrapper labels).enter u).userEip (c.wrapper labels).way = (c.wrapper labels).ret := by
  have hesp := esp_eq_libFrame u
  rcases wrapper_cases labels c with ⟨n, hw, -⟩ | ⟨n, hw, -⟩ | rfl
  . have hnext : wordAt u.libFrame 1 + 4 = wordAt u.libFrame 2 := wordAt_succ _ 1
    rw [hw]
    change ((Wrappers.plain labels n).enter u).userEip .sysenter = labels.syscallRet n
    rw [Wrappers.enter_plain hesp, userEip_sysenter h.aligned]
    . simp [wordAt_succ, wordAt_eq_iff]
    . exact h.msr175
    . exact hnext ▸ h.apart 2 (by decide)
  . have hnext : wordAt u.libFrame 0 + 4 = wordAt u.libFrame 1 := wordAt_succ _ 0
    rw [hw]
    change ((Wrappers.checked labels c.parameters n).enter u).userEip .sysenter = labels.syscallRet n
    rw [Wrappers.enter_checked hesp, userEip_sysenter h.aligned]
    . simp [wordAt_succ, wordAt_eq_iff]
    . exact h.msr175
    . exact hnext ▸ h.apart 1 (by decide)
  . change ((Wrappers.write labels).enter u).userEip .int80 = labels.returntrap
    rw [userEip_int80, Wrappers.enter_write hesp]

theorem finish_spec (c : LibCall) {t : Machine} (flags : Word)
    (herrno : ∀ i < 5, labels.errno ≠ wordAt u.libFrame i)
    (hesp : t.esp = ((c.wrapper labels).enter u).userEsp (c.wrapper labels).way)
    (hwords : ∀ i < 5, t.mem (wordAt u.libFrame i) = ((c.wrapper labels).enter u).mem (wordAt u.libFrame i))
    (hebx : c.parameters = 0 → t.regs.ebx = u.regs.ebx)
    : Unwound u.libFrame t ((c.wrapper labels).finish flags t) ∧
        ((c.wrapper labels).finish flags t).regs.eax = c.result t.regs.eax ∧
        ((c.wrapper labels).finish flags t).regs.ebx = u.regs.ebx ∧
        ((c.wrapper labels).finish flags t).mem =
          if c.Fails t.regs.eax then Function.update t.mem labels.errno (-t.regs.eax) else t.mem := by
  have hstart := esp_eq_libFrame u
  have hfails : c ∉ [.gettime, .getpid, .exit] → (c.Fails t.regs.eax ↔ t.regs.eax.toInt < 0) :=
    fun hc => ⟨fun h => h.2, fun h => ⟨hc, h⟩⟩
  rcases wrapper_cases labels c with ⟨n, hw, hcount, hc, -⟩ | ⟨n, hw, hc, -⟩ | rfl
  . have hnot : ¬c.Fails t.regs.eax := fun h => h.1 hc
    rw [hw] at hesp ⊢
    rw [Wrappers.enter_plain hstart] at hesp
    obtain ⟨hunwound, heax, hmem, hebx'⟩ := Wrappers.finish_plain labels n flags hesp
    unfold LibCall.result
    rw [if_neg hnot, if_neg hnot]
    exact ⟨hunwound, heax, hebx'.trans (hebx hcount), hmem⟩
  . rw [hw] at hesp hwords ⊢
    rw [Wrappers.enter_checked hstart] at hesp hwords
    obtain ⟨hunwound, hchecked, hebx'⟩ := Wrappers.finish_checked herrno hesp
    unfold LibCall.result
    simp only [hfails hc]
    refine ⟨hunwound, hchecked.eax, hebx'.trans ?_, hchecked.mem⟩
    rw [hwords 2 (by decide)]
    simp [wordAt_eq_iff]
  . have hw : LibCall.write.wrapper labels = Wrappers.write labels := rfl
    rw [hw] at hesp hwords ⊢
    rw [Wrappers.enter_write hstart] at hesp hwords
    obtain ⟨hunwound, hchecked, hebx'⟩ := Wrappers.finish_write herrno hesp
    unfold LibCall.result
    simp only [hfails (by decide)]
    refine ⟨hunwound, hchecked.eax, hebx'.trans ?_, hchecked.mem⟩
    rw [hwords 2 (by decide)]
    simp

theorem userFrame_routineEnds {v : Machine} {way : Way} {n : Nat} (hn : savedIndex = n + 3)
    (hframe : UserFrame way v p (n + 3) (v.userEip way) (v.userEsp way) (v.enterRoutine kernel way x))
    (hends : RoutineEnds c p u (v.enterRoutine kernel way x) m)
    : UserFrame way { v with regs := { v.regs with
                                       ebx := m.mem (wordAt p (n + 3))
                                       ecx := m.mem (wordAt p (n + 4))
                                       edx := m.mem (wordAt p (n + 5)) } }
        p (n + 3) (v.userEip way) (v.userEsp way) m := by
  have hsaved : n + 3 = 1008 := hn.symm
  have hle := parameters_le c
  have hkept : ∀ i, 3 ≤ i → i < 16 →
      m.mem (wordAt p (n + 3 + i)) = (v.enterRoutine kernel way x).mem (wordAt p (n + 3 + i)) := by
    intro i hi hlt
    exact hends.frame _ (by omega) (by unfold kernelStackSize; omega)
  constructor
  . rfl
  . rfl
  . rfl
  . exact (hkept 3 (by decide) (by decide)).trans hframe.esi
  . exact (hkept 4 (by decide) (by decide)).trans hframe.edi
  . exact (hkept 5 (by decide) (by decide)).trans hframe.ebp
  . exact (hkept 7 (by decide) (by decide)).trans hframe.ds
  . exact (hkept 8 (by decide) (by decide)).trans hframe.es
  . exact (hkept 9 (by decide) (by decide)).trans hframe.fs
  . exact (hkept 10 (by decide) (by decide)).trans hframe.gs
  . exact (hkept 11 (by decide) (by decide)).trans hframe.eip
  . exact (hkept 14 (by decide) (by decide)).trans hframe.esp
  . intro hway
    obtain ⟨hcs, heflags, hss⟩ := hframe.int80 hway
    have h12 := (hkept 12 (by decide) (by decide)).trans hcs
    have h13 := (hkept 13 (by decide) (by decide)).trans heflags
    have h15 := (hkept 15 (by decide) (by decide)).trans hss
    exact ⟨h12, h13, h15⟩

theorem wordAt_wordAt (b : Word) (i j : Nat) : wordAt (wordAt b i) j = wordAt b (i + j) :=
  wordAt_add b i j

theorem callsRoutine_inRoutineOf (kernel : Labels) (c : LibCall) (x : Leftovers) (h : CallsLib p u)
    : CallsRoutine c u (inRoutineOf labels kernel c x u) := by
  have hat := atTrap_enter labels c u
  unfold inRoutineOf
  generalize (c.wrapper labels).way = way at *
  generalize (c.wrapper labels).enter u = v at *
  obtain ⟨n, hn, -, -⟩ := exists_frameBase
  have hesp0 := hat.esp0.trans h.esp0
  have hmsr := hat.msr175.trans h.msr175
  obtain ⟨hesp, -, hframe⟩ := frame_enterRoutine h.aligned hesp0 hmsr hn kernel way x
  constructor
  . rw [eax_enterRoutine h.aligned hesp0 hmsr]
    exact hat.number
  . intro i hi
    have hparameter := hat.parameters i hi
    have hle := parameters_le c
    rw [hesp, esp_eq_libFrame u, wordAt_wordAt, wordAt_wordAt]
    match i, hi with
    | 0, _ => exact hframe.ebx.trans (Option.some.inj hparameter)
    | 1, _ => exact hframe.ecx.trans (Option.some.inj hparameter)
    | 2, _ => exact hframe.edx.trans (Option.some.inj hparameter)
    | i + 3, hi => omega

theorem returnsC_of_backInUser (h : CallsLib p u) (herrno : ErrnoApart labels p u) (c : LibCall)
    (flags : Word) {v t : Machine} {ebx ecx edx : Word} (hv : (c.wrapper labels).enter u = v)
    (hback : t.BackInUser (c.wrapper labels).way
      { v with regs := { v.regs with ebx := ebx, ecx := ecx, edx := edx } }
      (v.userEip (c.wrapper labels).way) (v.userEsp (c.wrapper labels).way))
    (hwords : ∀ i < 5, t.mem (wordAt u.libFrame i) = v.mem (wordAt u.libFrame i))
    (hebx : c.parameters = 0 → ebx = v.regs.ebx)
    : ∃ t', (c.wrapper labels).back flags t = some t' ∧ ReturnsC u (c.result t.regs.eax) t' ∧
        t'.mem = if c.Fails t.regs.eax then Function.update t.mem labels.errno (-t.regs.eax) else t.mem := by
  have hat := atTrap_enter labels c u
  have hret := userEip_enter h labels c
  have hfinish := finish_spec c flags herrno.2 (t := t)
  rw [hv] at hat hret hfinish
  obtain ⟨hunwound, heax, hebx', hmem⟩ := hfinish hback.esp hwords fun hzero =>
    hback.ebx.trans ((hebx hzero).trans (hat.ebx hzero))
  have hesp := esp_eq_libFrame u
  have hret' : v.mem (wordAt u.libFrame 4) = u.mem (wordAt u.libFrame 4) := by
    apply hat.kept
    intro i hi
    rw [Ne, wordAt_eq_iff (by decide) (by omega)]
    omega
  have hmode : t.cs = u.cs ∧ t.ss = u.ss := by
    generalize (c.wrapper labels).way = way at hback
    cases way with
    | int80 =>
      obtain ⟨-, -, -, hcs, hss⟩ := hback.int80 rfl
      exact ⟨hcs.trans hat.cs, hss.trans hat.ss⟩
    | sysenter =>
      obtain ⟨-, -, hcs, hss⟩ := hback.sysenter rfl
      exact ⟨hcs.trans h.cs.symm, hss.trans h.ss.symm⟩
  refine ⟨_, if_pos (hback.eip.trans hret), ?_, hmem⟩
  constructor
  . rw [hunwound.eip, hwords 4 (by decide), hret', ← hesp]
  . rw [hunwound.esp, hesp]
    exact (wordAt_succ u.libFrame 4).symm
  . exact heax
  . exact hebx'
  . exact hunwound.esi.trans (hback.esi.trans hat.esi)
  . exact hunwound.edi.trans (hback.edi.trans hat.edi)
  . rw [hunwound.ebp, hwords 3 (by decide), hat.ebp]
  . exact hunwound.cs.trans hmode.1
  . exact hunwound.ss.trans hmode.2
  . exact hunwound.ds.trans (hback.ds.trans hat.ds)
  . exact hunwound.es.trans (hback.es.trans hat.es)
  . exact hunwound.fs.trans (hback.fs.trans hat.fs)
  . exact hunwound.gs.trans (hback.gs.trans hat.gs)

/--
A call of any function of `wrappers.S` is a call of its routine in the kernel, with its arguments. When the routine
ends, by whatever way into the kernel, the caller goes on behind its call with the registers it counts on. It has got
the result, or -1 and the error in `errno`, and no other word of its memory has changed since the routine has ended.
-/
theorem libCall_returns (kernel : Labels) (c : LibCall) (x : Leftovers) (h : CallsLib p u)
    (herrno : ErrnoApart labels p u) : CallsRoutine c u (inRoutineOf labels kernel c x u) ∧
      ∀ m r z z' flags, RoutineEnds c p u (inRoutineOf labels kernel c x u) m →
        ((inRoutineOf labels kernel c x u).returnC z r m).eip = kernel.afterRoutine (c.wrapper labels).way ∧
        ∃ t, (c.wrapper labels).back flags (backFrom labels kernel c x z z' r u m) = some t ∧
          ReturnsC u (c.result r) t ∧
          ∀ a, page a ≠ p → t.mem a = if a = labels.errno ∧ c.Fails r then -r else m.mem a := by
  refine ⟨callsRoutine_inRoutineOf kernel c x h, ?_⟩
  intro m r z z' flags hends
  have hat := atTrap_enter labels c u
  obtain ⟨n, hn, -, hsaved⟩ := exists_frameBase
  have hlt : n + 19 = 1024 := hn
  have hesp0 := hat.esp0.trans h.esp0
  have hmsr := hat.msr175.trans h.msr175
  obtain ⟨hesp, hafter, hframe⟩ := frame_enterRoutine h.aligned hesp0 hmsr hn kernel (c.wrapper labels).way x
  have hebp : m.regs.ebp = wordAt p (n + 1) := hends.ebp.trans (congrArg (wordAt p) (by omega))
  obtain ⟨hespr, hr, hmemr⟩ := returnC_eq hebp z r (inRoutineOf labels kernel c x u)
  have heip : ((inRoutineOf labels kernel c x u).returnC z r m).eip = m.mem (wordAt p (n + 2)) := by
    simp [returnC, popl, Machine.ret, hebp, wordAt_succ]
  have hframe' := (userFrame_routineEnds hsaved hframe hends).congr (b := p) fun i _ _ => congrFun hmemr _
  obtain ⟨hback, heax⟩ := hframe'.leave h.aligned hespr (by omega) z'
  have hmem : ∀ a, page a ≠ p → (backFrom labels kernel c x z z' r u m).mem a = m.mem a := by
    intro a ha
    exact (mem_leave_of_page_ne h.aligned ha hespr (by omega) _ z').trans (congrFun hmemr a)
  have hwords : ∀ i < 5, (backFrom labels kernel c x z z' r u m).mem (wordAt u.libFrame i) =
      ((c.wrapper labels).enter u).mem (wordAt u.libFrame i) := by
    intro i hi
    have hapart := h.apart i (by omega)
    rw [hmem _ hapart, hends.user i hi]
    exact mem_enterRoutine_of_page_ne h.aligned hesp0 hmsr hapart kernel _ x
  have hebx : c.parameters = 0 → m.mem (wordAt p (n + 3)) = ((c.wrapper labels).enter u).regs.ebx := by
    intro hzero
    exact (hends.frame (n + 3) (by omega) (by omega)).trans hframe.ebx
  obtain ⟨t, ht, hreturns, hmem'⟩ := returnsC_of_backInUser h herrno c flags rfl hback hwords hebx
  rw [heax, hr] at hreturns hmem'
  refine ⟨?_, t, ht, hreturns, ?_⟩
  . have hword := hends.ret
    rw [show savedIndex - 1 = n + 2 by omega] at hword
    rw [heip, hword]
    exact hafter
  . intro a ha
    have hkept := hmem a ha
    unfold backFrom at hkept
    rw [hmem']
    split
    next hfails =>
      rw [Function.update_apply, hkept]
      simp [hfails]
    next hfails => rw [hkept, if_neg fun hand => hfails hand.2]

end Calls

section Calls

open Machine Switching

def someUserLabels : UserLabels where
  syscallRet n := 0x100400 + n
  returntrap := 0x100300
  errno := 0x11C000

def callerOf (p : Word) : Machine :=
  { userOf p with
    esp := 0x11EF00
    cs := userCS
    ss := userDS }

theorem callsLib_callerOf : CallsLib 0x50000 (callerOf 0x50000) where
  aligned := by decide
  esp0 := rfl
  msr175 := rfl
  cs := rfl
  ss := rfl
  apart := by decide

theorem errnoApart_callerOf : ErrnoApart someUserLabels 0x50000 (callerOf 0x50000) :=
  ⟨by decide, by decide⟩

theorem libCall_returns_read
    : let k := inRoutineOf someUserLabels someLabels .read zeroLeftovers (callerOf 0x50000)
      let m := { k with regs := { k.regs with ebp := wordAt 0x50000 (savedIndex - 2) } }
      ∃ t, (Wrappers.read someUserLabels).back 0 (backFrom someUserLabels someLabels .read zeroLeftovers
          zeroLeftovers zeroLeftovers (-14) (callerOf 0x50000) m) = some t ∧
        ReturnsC (callerOf 0x50000) (-1) t ∧ t.mem 0x11C000 = 14 := by
  intro k m
  have hends : RoutineEnds .read 0x50000 (callerOf 0x50000) k m :=
    ⟨rfl, rfl, fun _ _ _ => rfl, fun _ _ => rfl⟩
  obtain ⟨-, hreturns⟩ :=
    libCall_returns someLabels .read zeroLeftovers callsLib_callerOf errnoApart_callerOf
  obtain ⟨-, t, ht, hreturns, hmem⟩ := hreturns m (-14) zeroLeftovers zeroLeftovers 0 hends
  exact ⟨t, ht, hreturns, hmem 0x11C000 (by decide)⟩

end Calls

section NewTasks

open Machine

variable {labels : UserLabels} {kernel : Labels} {p new : Word} {u m : Machine} {x x' y : Leftovers}

theorem forkReturnsInChild (h : CallsLib p u) (herrno : ErrnoApart labels p u) (hnew : Aligned new)
    (hne : new ≠ p)
    (hkept : StackKept new (madeStack kernel .sysenter .fork x x' new ((LibCall.fork.wrapper labels).enter u)) m)
    (hswitch : SwitchesTo new m) (y : Leftovers) : ForkReturnsInChild labels u m y := by
  intro z flags hwords
  have hat := atTrap_enter labels .fork u
  have hstarts := childStarts h.aligned hnew hne (hat.esp0.trans h.esp0) (hat.msr175.trans h.msr175) hkept hswitch y
  obtain ⟨hback, heax⟩ := hstarts.returns z
  obtain ⟨t, ht, hreturns, hmem⟩ :=
    returnsC_of_backInUser h herrno .fork flags rfl hback hwords fun _ => rfl
  have hnot : ¬LibCall.fork.Fails 0 := by decide
  rw [heax] at hreturns hmem
  rw [if_neg hnot] at hmem
  exact ⟨t, ht, hreturns, hmem⟩

theorem cloneStartsThread (h : CallsLib p u) (hnew : Aligned new)
    (hkept : StackKept new (madeStack kernel .sysenter .clone x x' new ((LibCall.clone.wrapper labels).enter u)) m)
    (hswitch : SwitchesTo new m) (y : Leftovers) : CloneStartsThread u m y := by
  intro z
  have hat := atTrap_enter labels .clone u
  have hstarts := threadStarts h.aligned hnew (hat.esp0.trans h.esp0) (hat.msr175.trans h.msr175) hkept hswitch y
  have hback := hstarts.starts z
  have hfunction := Option.some.inj (hat.parameters 0 (by decide))
  have hstack := Option.some.inj (hat.parameters 1 (by decide))
  rw [esp_eq_libFrame u, wordAt_wordAt, wordAt_wordAt]
  exact ⟨hback.eip.trans hfunction, hback.esp.trans hstack⟩

/--
The new task of a call of `fork` or `clone` starts as C programs expect it, whatever the kernel has done before it
is first switched to.
-/
theorem libStartsAs (call : NewTask) (h : CallsLib p u) (herrno : ErrnoApart labels p u) (hnew : Aligned new)
    (hne : new ≠ p)
    (hkept : StackKept new (madeStack kernel .sysenter call x x' new ((call.libCall.wrapper labels).enter u)) m)
    (hswitch : SwitchesTo new m) (y : Leftovers) : LibStartsAs labels call u m y := by
  cases call with
  | fork => exact forkReturnsInChild h herrno hnew hne hkept hswitch y
  | clone => exact cloneStartsThread h hnew hkept hswitch y

open Switching in
def libFirstDispatch (call : NewTask) : Machine :=
  atInnerCall 0x50000 0x51000 (madeStack someLabels .sysenter call zeroLeftovers zeroLeftovers 0x51000
    ((call.libCall.wrapper someUserLabels).enter (callerOf 0x50000)))

open Switching in
theorem libStartsAs_callerOf
    : (∃ t, (Wrappers.fork someUserLabels).back 0
        (((libFirstDispatch .fork).innerTaskSwitch zeroLeftovers).retFromFork.leave .sysenter zeroLeftovers) = some t ∧
        ReturnsC (callerOf 0x50000) 0 t) ∧
      CloneStartsThread (callerOf 0x50000) (libFirstDispatch .clone) zeroLeftovers := by
  have hp : Aligned 0x50000 := by decide
  have hnew : Aligned 0x51000 := by decide
  have hne : (0x51000 : Word) ≠ 0x50000 := by decide
  constructor
  . have hchild : LibStartsAs someUserLabels .fork (callerOf 0x50000) (libFirstDispatch .fork) zeroLeftovers :=
      libStartsAs .fork callsLib_callerOf errnoApart_callerOf hnew hne (stackKept_atInnerCall hp hnew hne _)
        (switchesTo_atInnerCall hp hne _) zeroLeftovers
    obtain ⟨t, ht, hreturns, -⟩ := hchild zeroLeftovers 0 (by decide)
    exact ⟨t, ht, hreturns⟩
  . have hthread : LibStartsAs someUserLabels .clone (callerOf 0x50000) (libFirstDispatch .clone) zeroLeftovers :=
      libStartsAs .clone callsLib_callerOf errnoApart_callerOf hnew hne (stackKept_atInnerCall hp hnew hne _)
        (switchesTo_atInnerCall hp hne _) zeroLeftovers
    exact hthread

end NewTasks

end Zeos
