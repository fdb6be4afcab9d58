import Zeos.Spec.Trap
import Zeos.Lemmas.Switch

/-!
The user frame: the words that the way into the kernel and `SAVE_ALL` push, and that `RESTORE_ALL` and the way
back pop. What comes in between keeps it, and so do the copies that `sys_fork` and `sys_clone` make of it.
-/

namespace Zeos

open Descending

namespace Machine

variable {labels : Labels} {way : Way} {m m' u : Machine} {b t p new start top v : Word} {i j k n : Nat}
  {x y z : Leftovers}

/--
The user frame of the system call made at `u` is on the page `t`, from word `n` on. It leads back to `start`
and to the stack `top`. The word that is to be `%eax` is left out.
-/
structure UserFrame (way : Way) (u : Machine) (t : Word) (n : Nat) (start top : Word) (m : Machine)
    : Prop where
  ebx : m.mem (wordAt t n) = u.regs.ebx
  ecx : m.mem (wordAt t (n + 1)) = u.regs.ecx
  edx : m.mem (wordAt t (n + 2)) = u.regs.edx
  esi : m.mem (wordAt t (n + 3)) = u.regs.esi
  edi : m.mem (wordAt t (n + 4)) = u.regs.edi
  ebp : m.mem (wordAt t (n + 5)) = u.regs.ebp
  ds : m.mem (wordAt t (n + 7)) = u.ds.setWidth 32
  es : m.mem (wordAt t (n + 8)) = u.es.setWidth 32
  fs : m.mem (wordAt t (n + 9)) = u.fs.setWidth 32
  gs : m.mem (wordAt t (n + 10)) = u.gs.setWidth 32
  eip : m.mem (wordAt t (n + 11)) = start
  esp : m.mem (wordAt t (n + 14)) = top
  int80 : way = .int80 → m.mem (wordAt t (n + 12)) = u.cs.setWidth 32 ∧
    m.mem (wordAt t (n + 13)) = u.eflags ∧ m.mem (wordAt t (n + 15)) = u.ss.setWidth 32

theorem UserFrame.copy (h : UserFrame way u t n start top m) {start' top' : Word}
    (hmem : ∀ i, i < 16 → i ≠ 6 → i ≠ 11 → i ≠ 14 →
      m'.mem (wordAt b (n + i)) = m.mem (wordAt t (n + i)))
    (hstart : m'.mem (wordAt b (n + 11)) = start') (htop : m'.mem (wordAt b (n + 14)) = top')
    : UserFrame way u b n start' top' m' := by
  constructor
  . exact (hmem 0 (by decide) (by decide) (by decide) (by decide)).trans h.ebx
  . exact (hmem 1 (by decide) (by decide) (by decide) (by decide)).trans h.ecx
  . exact (hmem 2 (by decide) (by decide) (by decide) (by decide)).trans h.edx
  . exact (hmem 3 (by decide) (by decide) (by decide) (by decide)).trans h.esi
  . exact (hmem 4 (by decide) (by decide) (by decide) (by decide)).trans h.edi
  . exact (hmem 5 (by decide) (by decide) (by decide) (by decide)).trans h.ebp
  . exact (hmem 7 (by decide) (by decide) (by decide) (by decide)).trans h.ds
  . exact (hmem 8 (by decide) (by decide) (by decide) (by decide)).trans h.es
  . exact (hmem 9 (by decide) (by decide) (by decide) (by decide)).trans h.fs
  . exact (hmem 10 (by decide) (by decide) (by decide) (by decide)).trans h.gs
  . exact hstart
  . exact htop
  . intro hway
    obtain ⟨hcs, heflags, hss⟩ := h.int80 hway
    have hcs' := (hmem 12 (by decide) (by decide) (by decide) (by decide)).trans hcs
    have heflags' := (hmem 13 (by decide) (by decide) (by decide) (by decide)).trans heflags
    have hss' := (hmem 15 (by decide) (by decide) (by decide) (by decide)).trans hss
    exact ⟨hcs', heflags', hss'⟩

theorem UserFrame.congr (h : UserFrame way u t n start top m)
    (hmem : ∀ i, i < 16 → i ≠ 6 → m'.mem (wordAt b (n + i)) = m.mem (wordAt t (n + i)))
    : UserFrame way u b n start top m' := by
  apply h.copy
  . exact fun i hi hne _ _ => hmem i hi hne
  . exact (hmem 11 (by decide) (by decide)).trans h.eip
  . exact (hmem 14 (by decide) (by decide)).trans h.esp

section StatsCall

def statsCall (x : Leftovers) (m : Machine) : Machine :=
  (m.pushEax.callC x).popEax

theorem esp_statsCall (x : Leftovers) (m : Machine) : (m.statsCall x).esp = m.esp := by
  show m.esp - 4 + 4 = m.esp
  exact BitVec.sub_add_cancel _ _

variable (hb : Aligned b) (h : m.esp = wordAt b (n + 1)) (hn : n + 1 < kernelStackSize)
include hb h hn

theorem mem_statsCall (ht : Aligned t) (hi : i < kernelStackSize) (hout : t = b → n + 1 ≤ i)
    : (m.statsCall x).mem (wordAt t i) = m.mem (wordAt t i) := by
  have hlt : n + 1 < 1024 := hn
  have hesp : (m.toStack.push m.regs.eax).esp = wordAt b n := Stack.esp_push h
  have hbelow : (m.statsCall x).mem (wordAt t i) = (m.toStack.push m.regs.eax).mem (wordAt t i) :=
    mem_leaveBelow hb ht hesp (by omega) hi (fun heq => .inr (by have := hout heq; omega))
  rw [hbelow, Stack.mem_push hb ht h (by omega) hi, if_neg]
  rintro ⟨heq, rfl⟩
  have := hout heq
  omega

theorem regs_statsCall
    : (m.statsCall x).regs = { m.regs with ecx := x.ecx, edx := x.edx } := by
  have hlt : n + 1 < 1024 := hn
  have hesp : (m.toStack.push m.regs.eax).esp = wordAt b n := Stack.esp_push h
  have heax : (leaveBelow x.below (m.toStack.push m.regs.eax)).mem (m.toStack.push m.regs.eax).esp =
      m.regs.eax := by
    rw [hesp, mem_leaveBelow hb hb hesp (by omega) (by omega) (fun _ => .inr le_rfl),
      Stack.mem_push hb hb h (by omega) (by omega), if_pos ⟨rfl, rfl⟩]
  have hregs : (m.statsCall x).regs =
      { m.regs with
        eax := (leaveBelow x.below (m.toStack.push m.regs.eax)).mem (m.toStack.push m.regs.eax).esp
        ecx := x.ecx
        edx := x.edx } := rfl
  rw [hregs, heax]

end StatsCall

section Leave

theorem restoreAll_eq (h : m.esp = wordAt t n)
    : m.restoreAll =
        { m with
          esp := wordAt t (n + 11)
          regs := { ebx := m.mem (wordAt t n), ecx := m.mem (wordAt t (n + 1)),
                    edx := m.mem (wordAt t (n + 2)), esi := m.mem (wordAt t (n + 3)),
                    edi := m.mem (wordAt t (n + 4)), ebp := m.mem (wordAt t (n + 5)),
                    eax := m.mem (wordAt t (n + 6)) }
          ds := (m.mem (wordAt t (n + 7))).setWidth 16
          es := (m.mem (wordAt t (n + 8))).setWidth 16
          fs := (m.mem (wordAt t (n + 9))).setWidth 16
          gs := (m.mem (wordAt t (n + 10))).setWidth 16 } := by
  simp [restoreAll, popl, popEax, popSegment, h, wordAt_succ]

theorem setWidth_segment (s : BitVec 16) : (s.setWidth 32).setWidth 16 = s := by
  rw [BitVec.setWidth_setWidth_of_le _ (by decide), BitVec.setWidth_eq]

def sysexitStub (m : Machine) : Machine :=
  let m := { m with regs := { m.regs with edx := m.mem m.esp } }
  let m := { m with regs := { m.regs with ecx := m.mem (m.esp + 12) } }
  m.sysexit

theorem UserFrame.restoreAll_eq (hframe : UserFrame way u t n start top m) (h : m.esp = wordAt t n)
    : m.restoreAll =
        { m with
          esp := wordAt t (n + 11)
          regs := { u.regs with eax := m.mem (wordAt t (n + 6)) }
          ds := u.ds
          es := u.es
          fs := u.fs
          gs := u.gs } := by
  rw [Machine.restoreAll_eq h, hframe.ebx, hframe.ecx, hframe.edx, hframe.esi, hframe.edi, hframe.ebp,
    hframe.ds, hframe.es, hframe.fs, hframe.gs, setWidth_segment, setWidth_segment, setWidth_segment,
    setWidth_segment]

theorem UserFrame.iret (hframe : UserFrame .int80 u t n start top m) (h : m.esp = wordAt t n)
    : m.restoreAll.iret.BackInUser .int80 u start top ∧
        m.restoreAll.iret.regs.eax = m.mem (wordAt t (n + 6)) := by
  have hword : ∀ i, m.mem (wordAt t (n + 11) + BitVec.ofNat 32 (4 * i)) = m.mem (wordAt t (n + 11 + i)) :=
    fun i => congrArg m.mem (wordAt_add t (n + 11) i)
  obtain ⟨hcs, heflags, hss⟩ := hframe.int80 rfl
  rw [hframe.restoreAll_eq h]
  have hesp := (hword 3).trans hframe.esp
  refine ⟨⟨hframe.eip, hesp, rfl, rfl, rfl, rfl, rfl, rfl, rfl, rfl, ?_, nofun⟩, rfl⟩
  intro _
  refine ⟨rfl, rfl, (hword 2).trans heflags, ?_, ?_⟩
  . exact (congrArg _ ((hword 1).trans hcs)).trans (setWidth_segment u.cs)
  . exact (congrArg _ ((hword 4).trans hss)).trans (setWidth_segment u.ss)

theorem UserFrame.sysexit (hframe : UserFrame .sysenter u t n start top m) (h : m.esp = wordAt t n)
    : m.restoreAll.sysexitStub.BackInUser .sysenter u start top ∧
        m.restoreAll.sysexitStub.regs.eax = m.mem (wordAt t (n + 6)) := by
  have htop : m.mem (wordAt t (n + 11) + 12) = top :=
    (congrArg m.mem (wordAt_add t (n + 11) 3)).trans hframe.esp
  rw [hframe.restoreAll_eq h]
  refine ⟨⟨hframe.eip, htop, rfl, rfl, rfl, rfl, rfl, rfl, rfl, rfl, nofun, ?_⟩, rfl⟩
  exact fun _ => ⟨htop, hframe.eip, rfl, rfl⟩

theorem UserFrame.result (hframe : UserFrame way u t n start top m) (hn : n + 16 ≤ kernelStackSize)
    (hmem : ∀ i < kernelStackSize, n ≤ i →
      m'.mem (wordAt t i) = if i = n + 6 then v else m.mem (wordAt t i))
    : UserFrame way u t n start top m' ∧ m'.mem (wordAt t (n + 6)) = v := by
  constructor
  . apply hframe.congr
    intro i hi hne
    rw [hmem (n + i) (by omega) (by omega), if_neg (by omega)]
  . rw [hmem (n + 6) (by omega) (by omega), if_pos rfl]

theorem UserFrame.leave (hframe : UserFrame way u t (n + 1) start top m) (ht : Aligned t)
    (h : m.esp = wordAt t (n + 1)) (hn : n + 17 ≤ kernelStackSize) (x : Leftovers)
    : (m.leave way x).BackInUser way u start top ∧ (m.leave way x).regs.eax = m.regs.eax := by
  have hlt : n + 17 ≤ 1024 := hn
  have hslot : wordAt t (n + 1) + 0x18 = wordAt t (n + 1 + 6) := wordAt_add t (n + 1) 6
  cases way with
  | int80 =>
    have hleave : m.leave .int80 x = ((m.statsCall x).store ((m.statsCall x).esp + 0x18)
      (m.statsCall x).regs.eax).restoreAll.iret := rfl
    rw [hleave, esp_statsCall, h, hslot, regs_statsCall ht h (by omega)]
    obtain ⟨hframe', heax⟩ := hframe.result hn fun i hi hle =>
      (mem_store_page ht hi (by omega)).trans
        (congrArg _ (mem_statsCall ht h (by omega) ht hi (fun _ => hle)))
    have hback := hframe'.iret ((esp_statsCall x m).trans h)
    exact ⟨hback.1, hback.2.trans heax⟩
  | sysenter =>
    have hleave : m.leave .sysenter x =
      ((m.store (m.esp + 0x18) m.regs.eax).statsCall x).restoreAll.sysexitStub := rfl
    have hesp : (m.store (wordAt t (n + 1 + 6)) m.regs.eax).esp = wordAt t (n + 1) := h
    rw [hleave, h, hslot]
    obtain ⟨hframe', heax⟩ := hframe.result hn fun i hi hle =>
      (mem_statsCall ht hesp (by omega) ht hi (fun _ => hle)).trans (mem_store_page ht hi (by omega))
    have hback := hframe'.sysexit ((esp_statsCall x _).trans hesp)
    exact ⟨hback.1, hback.2.trans heax⟩

end Leave

section Enter

variable (hp : Aligned p) (hesp0 : u.esp0 = kernelEsp p) (hmsr : u.msr175 = kernelEsp p)
  (hn : n + 16 = kernelStackSize)
include hesp0 hmsr hn

theorem toStack_trap (way : Way)
    : ∃ ss eflags cs eip, (u.trap way).toStack =
        (Stack.mk (wordAt p (n + 16)) u.mem).pushes [ss, u.userEsp way, eflags, cs, eip] ∧
          (way = .int80 → cs = u.cs.setWidth 32 ∧ eflags = u.eflags ∧ ss = u.ss.setWidth 32) := by
  have hkernel : kernelEsp p = wordAt p (n + 16) := by
    rw [hn]
    rfl
  rw [← hkernel]
  cases way with
  | int80 =>
    rw [← hesp0]
    exact ⟨_, _, _, _, rfl, fun _ => ⟨rfl, rfl, rfl⟩⟩
  | sysenter =>
    rw [← hmsr]
    exact ⟨_, _, _, _, rfl, nofun⟩

theorem esp_trap (way : Way) : (u.trap way).esp = wordAt p (n + 11) := by
  obtain ⟨ss, eflags, cs, eip, heq, -⟩ := toStack_trap hesp0 hmsr hn way
  rw [heq]
  exact Stack.esp_pushes rfl

theorem esp_saveAll (way : Way) : (u.trap way).saveAll.esp = wordAt p n :=
  Stack.esp_pushes (esp_trap hesp0 hmsr hn way)

include hp

theorem userFrame_saveAll (way : Way)
    : UserFrame way u p n (u.userEip way) (u.userEsp way) (u.trap way).saveAll := by
  have hlt : n + 16 = 1024 := hn
  have hesp := esp_trap hesp0 hmsr hn way
  obtain ⟨ss, eflags, cs, eip, heq, hint80⟩ := toStack_trap hesp0 hmsr hn way
  have hsave : (u.trap way).saveAll.toStack = (u.trap way).toStack.pushes
      [u.gs.setWidth 32, u.fs.setWidth 32, u.es.setWidth 32, u.ds.setWidth 32, u.regs.eax, u.regs.ebp,
        u.regs.edi, u.regs.esi, u.regs.edx, u.regs.ecx, u.regs.ebx] := by
    cases way with
    | int80 => rfl
    | sysenter => rfl
  have hlow : ∀ i v, [u.regs.ebx, u.regs.ecx, u.regs.edx, u.regs.esi, u.regs.edi, u.regs.ebp, u.regs.eax,
      u.ds.setWidth 32, u.es.setWidth 32, u.fs.setWidth 32, u.gs.setWidth 32][i]? = some v →
        (u.trap way).saveAll.mem (wordAt p (n + i)) = v := by
    intro i v hi
    rw [hsave]
    exact Stack.mem_pushes hp hesp (by simp; omega) hi
  have hhigh : ∀ i, i < 5 →
      (u.trap way).saveAll.mem (wordAt p (n + 11 + i)) = (u.trap way).mem (wordAt p (n + 11 + i)) := by
    intro i hi
    rw [hsave]
    exact Stack.mem_pushes_of_outside hp hp hesp (by simp; omega) (by omega) (fun _ => .inr (by simp))
  have htrap : ∀ i v, [eip, cs, eflags, u.userEsp way, ss][i]? = some v → i < 5 →
      (u.trap way).saveAll.mem (wordAt p (n + 11 + i)) = v := by
    intro i v hi hi5
    rw [hhigh i hi5, heq]
    exact Stack.mem_pushes hp rfl (by simp; omega) hi
  constructor
  . exact hlow 0 _ rfl
  . exact hlow 1 _ rfl
  . exact hlow 2 _ rfl
  . exact hlow 3 _ rfl
  . exact hlow 4 _ rfl
  . exact hlow 5 _ rfl
  . exact hlow 7 _ rfl
  . exact hlow 8 _ rfl
  . exact hlow 9 _ rfl
  . exact hlow 10 _ rfl
  . unfold userEip
    rw [hesp]
    exact hhigh 0 (by decide)
  . exact htrap 3 _ rfl (by decide)
  . intro hway
    obtain ⟨rfl, rfl, rfl⟩ := hint80 hway
    exact ⟨htrap 1 _ rfl (by decide), htrap 2 _ rfl (by decide), htrap 4 _ rfl (by decide)⟩

end Enter

section Routine

variable (hp : Aligned p) (hesp0 : u.esp0 = kernelEsp p) (hmsr : u.msr175 = kernelEsp p)
  (hn : n + 19 = kernelStackSize)
include hp hesp0 hmsr hn

theorem frame_enterRoutine (labels : Labels) (way : Way) (x : Leftovers)
    : (u.enterRoutine labels way x).esp = wordAt p (n + 2) ∧
        (u.enterRoutine labels way x).mem (wordAt p (n + 2)) = labels.afterRoutine way ∧
          UserFrame way u p (n + 3) (u.userEip way) (u.userEsp way) (u.enterRoutine labels way x) := by
  have hlt : n + 19 = 1024 := hn
  have hsave := esp_saveAll hesp0 hmsr hn way
  have hesp : ((u.trap way).saveAll.statsCall x).esp = wordAt p (n + 2 + 1) :=
    (esp_statsCall x _).trans hsave
  have henter : u.enterRoutine labels way x =
      ((u.trap way).saveAll.statsCall x).push (labels.afterRoutine way) := rfl
  have hpush : ∀ i < kernelStackSize, (u.enterRoutine labels way x).mem (wordAt p i) =
      if p = p ∧ i = n + 2 then labels.afterRoutine way
      else ((u.trap way).saveAll.statsCall x).mem (wordAt p i) := by
    intro i hi
    rw [henter]
    exact Stack.mem_push hp hp hesp (by omega) hi
  refine ⟨Stack.esp_push hesp, ?_, ?_⟩
  . rw [hpush _ (by omega), if_pos ⟨rfl, rfl⟩]
  . apply (userFrame_saveAll hp hesp0 hmsr hn way).congr
    intro i hi _
    rw [hpush _ (by omega), if_neg (by omega),
      mem_statsCall hp hsave (by omega) hp (by omega) (fun _ => by omega)]

theorem frame_inRoutine (labels : Labels) (way : Way) (x x' : Leftovers)
    : (inRoutine labels way x x' u).esp = wordAt p (n + 1) ∧
        (inRoutine labels way x x' u).regs.ebp = wordAt p (n + 1) ∧
          ∀ i, n + 2 ≤ i → i < kernelStackSize → (inRoutine labels way x x' u).mem (wordAt p i) =
            (u.enterRoutine labels way x).mem (wordAt p i) := by
  have hlt : n + 19 = 1024 := hn
  have hesp := (frame_enterRoutine hp hesp0 hmsr hn labels way x).1
  have hpush : ((u.enterRoutine labels way x).push (u.enterRoutine labels way x).regs.ebp).esp =
      wordAt p (n + 1) := Stack.esp_push hesp
  refine ⟨hpush, hpush, ?_⟩
  intro i hle hi
  have hbelow : (inRoutine labels way x x' u).mem (wordAt p i) =
      ((u.enterRoutine labels way x).push (u.enterRoutine labels way x).regs.ebp).mem (wordAt p i) :=
    mem_leaveBelow hp hp hpush (by omega) hi (fun _ => .inr (by omega))
  rw [hbelow]
  exact (Stack.mem_push hp hp hesp (by omega) hi).trans (if_neg (by omega))

end Routine

section Stacks

variable (hp : Aligned p) (hnew : Aligned new) (hne : new ≠ p) (h : m.esp = wordAt p k)
  (hk : k < kernelStackSize)

theorem toNat_wordAt_sub (ht : Aligned t) (hi : i < kernelStackSize) : (wordAt t i - t).toNat = 4 * i := by
  have hlt : i < 1024 := hi
  have htlt := t.isLt
  rw [BitVec.toNat_sub, ht.toNat_wordAt hi]
  omega

include hnew in
theorem not_inUnion (ht : Aligned t) (hne : t ≠ new) (hi : i < kernelStackSize)
    : ¬(wordAt t i - new).toNat < 4 * kernelStackSize := by
  have hlt : i < 1024 := hi
  have htlt := t.isLt
  have hnewlt := new.isLt
  have hnat : t.toNat ≠ new.toNat := fun heq => hne (BitVec.eq_of_toNat_eq heq)
  unfold Aligned at *
  rw [BitVec.toNat_sub, Aligned.toNat_wordAt ht hi]
  unfold kernelStackSize
  omega

include hp hnew h hk in
theorem mem_copyUnion (hi : i < kernelStackSize)
    : (m.copyUnion new).mem (wordAt new i) = m.mem (wordAt p i) := by
  have hlt : i < 1024 := hi
  have hsub : wordAt new i - new = BitVec.ofNat 32 (4 * i) := by
    apply BitVec.eq_of_toNat_eq
    rw [toNat_wordAt_sub hnew hi, BitVec.toNat_ofNat]
    omega
  unfold copyUnion
  dsimp only
  rw [toNat_wordAt_sub hnew hi, if_pos (by omega), hsub, current_eq hp h hk]
  rfl

include hnew in
theorem mem_copyUnion_of_ne (ht : Aligned t) (hne : t ≠ new) (hi : i < kernelStackSize)
    : (m.copyUnion new).mem (wordAt t i) = m.mem (wordAt t i) :=
  if_neg (not_inUnion hnew ht hne hi)

include hp h hk in
theorem frameIndex_eq (hebp : m.regs.ebp = wordAt p j) (hj : j < kernelStackSize) : m.frameIndex = j := by
  unfold frameIndex getEbp
  rw [hebp, current_eq hp h hk, BitVec.toNat_udiv, toNat_wordAt_sub hp hj]
  show 4 * j / 4 = j
  omega

end Stacks

section Made

variable (hp : Aligned p) (hnew : Aligned new) (h : m.esp = wordAt p (n + 1))
  (hebp : m.regs.ebp = wordAt p (n + 1)) (hn : n + 1 < kernelStackSize)
include hp h hebp hn

theorem forkStack_eq (labels : Labels)
    : m.forkStack labels new =
        (((m.copyUnion new).store (wordAt new (n + 1)) labels.retFromFork).store (wordAt new n) 0).store
          (wordAt new 2) (wordAt new n) := by
  have hfork : m.forkStack labels new =
      (((m.copyUnion new).store (wordAt new (m.copyUnion new).frameIndex) labels.retFromFork).store
        (wordAt new ((m.copyUnion new).frameIndex - 1)) 0).store (kernelEspField new)
          (wordAt new ((m.copyUnion new).frameIndex - 1)) := rfl
  have hindex : (m.copyUnion new).frameIndex = n + 1 := frameIndex_eq hp h hn hebp hn
  rw [hfork, hindex]
  rfl

include hnew

theorem mem_forkStack (hroom : taskStructWords ≤ n) (labels : Labels)
    : (m.forkStack labels new).mem (kernelEspField new) = wordAt new n ∧
        (m.forkStack labels new).mem (wordAt new (n + 1)) = labels.retFromFork ∧
          ∀ i, n + 2 ≤ i → i < kernelStackSize →
            (m.forkStack labels new).mem (wordAt new i) = m.mem (wordAt p i) := by
  have hfield : kernelEspField new = wordAt new 2 := rfl
  have hwords : 2 < n := hroom.trans_lt' (by decide)
  rw [forkStack_eq hp h hebp hn, hfield]
  refine ⟨?_, ?_, ?_⟩
  . rw [mem_store_page hnew (by omega) (by omega), if_pos rfl]
  . rw [mem_store_page hnew hn (by omega), if_neg (by omega), mem_store_page hnew hn (by omega),
      if_neg (by omega), mem_store_page hnew hn hn, if_pos rfl]
  . intro i hle hi
    rw [mem_store_page hnew hi (by omega), if_neg (by omega), mem_store_page hnew hi (by omega),
      if_neg (by omega), mem_store_page hnew hi hn, if_neg (by omega), mem_copyUnion hp hnew h hn hi]

theorem mem_forkStack_of_ne (labels : Labels) (ht : Aligned t) (hne : t ≠ new) (hi : i < kernelStackSize)
    : (m.forkStack labels new).mem (wordAt t i) = m.mem (wordAt t i) := by
  have hout : ∀ j, ¬(t = new ∧ i = j) := fun j heq => hne heq.1
  rw [forkStack_eq hp h hebp hn, mem_store hnew ht hi (by decide), if_neg (hout 2),
    mem_store hnew ht hi (by omega), if_neg (hout n), mem_store hnew ht hi hn, if_neg (hout (n + 1)),
    mem_copyUnion_of_ne hnew ht hne hi]

/-- The thread has the copied frame, in which its creator's `%eip` and `%esp` are exchanged for its own. -/
theorem mem_cloneStack (hroom : taskStructWords ≤ n) (hstack : n + 1 < kernelStackSize - 5)
    : (m.cloneStack new).mem (kernelEspField new) = wordAt new (n + 1) ∧
        ∀ i, n + 1 ≤ i → i < kernelStackSize → (m.cloneStack new).mem (wordAt new i) =
          if i = kernelStackSize - 5 then m.mem (wordAt p (n + 3))
          else if i = kernelStackSize - 2 then m.mem (wordAt p (n + 4))
          else m.mem (wordAt p i) := by
  have hclone : m.cloneStack new =
      (((m.copyUnion new).store (kernelEspField new) (wordAt new (m.copyUnion new).frameIndex)).store
        (wordAt new (kernelStackSize - 2)) (m.mem (m.regs.ebp + 12))).store
          (wordAt new (kernelStackSize - 5)) (m.mem (m.regs.ebp + 8)) := rfl
  have hindex : (m.copyUnion new).frameIndex = n + 1 := frameIndex_eq hp h hn hebp hn
  have hfield : kernelEspField new = wordAt new 2 := rfl
  have hwords : 2 < n := hroom.trans_lt' (by decide)
  have hfunction : m.regs.ebp + 8 = wordAt p (n + 3) := by
    rw [hebp]
    exact wordAt_add p (n + 1) 2
  have hstack' : m.regs.ebp + 12 = wordAt p (n + 4) := by
    rw [hebp]
    exact wordAt_add p (n + 1) 3
  rw [hclone, hindex, hfield, hfunction, hstack']
  refine ⟨?_, ?_⟩
  . rw [mem_store_page hnew (by omega) (by omega), if_neg (by omega), mem_store_page hnew (by omega) (by omega),
      if_neg (by omega), mem_store_page hnew (by omega) (by omega), if_pos rfl]
  . intro i hle hi
    rw [mem_store_page hnew hi (by omega), mem_store_page hnew hi (by omega),
      mem_store_page hnew hi (by omega), if_neg (show ¬i = 2 by omega), mem_copyUnion hp hnew h hn hi]

end Made

section Dispatch

theorem innerTaskSwitch_eq (ht : Aligned t) (h : SwitchesTo t m) (y : Leftovers)
    : ∃ m', m.innerTaskSwitch y = m'.setEsp (m'.mem (kernelEspField t)) ∧ StackKept t m m' := by
  obtain ⟨b, n, hb, hne, hroom, hn, hesp, harg⟩ := h
  have hlt : n + 2 < 1024 := hn
  have hframe : ((m.push m.regs.ebp).movEspEbp).esp = wordAt b n := Stack.esp_push hesp
  have harg' : (m.push m.regs.ebp).movEspEbp.mem ((m.push m.regs.ebp).movEspEbp.regs.ebp + 8) = t := by
    have hebp : (m.push m.regs.ebp).movEspEbp.regs.ebp + 8 = wordAt b (n + 2) := by
      rw [← wordAt_add_two, ← hframe]
      rfl
    rw [hebp, ← harg]
    exact (Stack.mem_push hb hb hesp (by omega) hn).trans (if_neg (by omega))
  have hkept : ∀ i < kernelStackSize, ((m.push m.regs.ebp).movEspEbp.saveContext y t).mem (wordAt t i) =
      m.mem (wordAt t i) := by
    intro i hi
    rw [mem_saveContext hb hframe (by omega) ht hi (fun heq => absurd heq.symm hne),
      if_neg (fun heq => hne heq.1.symm)]
    exact (Stack.mem_push hb ht hesp (by omega) hi).trans (if_neg fun heq => hne heq.1.symm)
  refine ⟨(m.push m.regs.ebp).movEspEbp.saveContext y t, ?_, hkept 2 (by decide), fun i _ hi => hkept i hi⟩
  unfold innerTaskSwitch
  dsimp only
  rw [harg']

/-- The first switch to a task begins where the stack that has been made for it says. -/
theorem firstSwitch (hnew : Aligned new) (hmade : m.mem (kernelEspField new) = wordAt new n)
    (hroom : taskStructWords ≤ n) (hn : n + 2 < kernelStackSize) (hkept : StackKept new m m')
    (hswitch : SwitchesTo new m') (y : Leftovers)
    : (m'.innerTaskSwitch y).esp = wordAt new (n + 2) ∧
        (m'.innerTaskSwitch y).eip = m.mem (wordAt new (n + 1)) ∧
          ∀ i, taskStructWords ≤ i → i < kernelStackSize →
            (m'.innerTaskSwitch y).mem (wordAt new i) = m.mem (wordAt new i) := by
  obtain ⟨m'', heq, hkept'⟩ := innerTaskSwitch_eq hnew hswitch y
  have hesp := hkept'.kernelEsp.trans (hkept.kernelEsp.trans hmade)
  have hwords : ∀ i, taskStructWords ≤ i → i < kernelStackSize →
      m''.mem (wordAt new i) = m.mem (wordAt new i) :=
    fun i hle hi => (hkept'.words i hle hi).trans (hkept.words i hle hi)
  rw [heq, setEsp_eq hesp]
  exact ⟨rfl, hwords (n + 1) (by omega) (by omega), hwords⟩

theorem returnC_eq (hebp : m'.regs.ebp = wordAt t n) (z : Leftovers) (r : Word) (m : Machine)
    : (m.returnC z r m').esp = wordAt t (n + 2) ∧ (m.returnC z r m').regs.eax = r ∧
        (m.returnC z r m').mem = m'.mem := by
  refine ⟨?_, rfl, rfl⟩
  simp [returnC, popl, Machine.ret, hebp, wordAt_succ]

theorem retFromFork_eq (h : m.esp = wordAt t (n + 1))
    : m.retFromFork =
        { m with
          esp := wordAt t (n + 2)
          mem := Function.update m.mem (wordAt t n) m.regs.ebp
          eip := Function.update m.mem (wordAt t n) m.regs.ebp (wordAt t (n + 1))
          regs := { m.regs with eax := 0 } } := by
  have hsub : wordAt t (n + 1) - 4#32 = wordAt t n := wordAt_sub t n
  simp [retFromFork, push, Stack.push, movEspEbp, popl, Machine.ret, h, hsub, wordAt_succ]

end Dispatch

end Machine

section FirstDispatch

variable {labels : Labels} {way : Way} {x x' : Leftovers} {p new : Word} {u m : Machine} {n : Nat}

open Machine Switching

theorem exists_frameBase : ∃ n, n + 19 = kernelStackSize ∧ taskStructWords ≤ n ∧ savedIndex = n + 3 :=
  ⟨1005, rfl, by decide, rfl⟩

theorem childStarts (hp : Aligned p) (hnew : Aligned new) (hne : new ≠ p) (hesp0 : u.esp0 = kernelEsp p)
    (hmsr : u.msr175 = kernelEsp p) (hkept : StackKept new (madeStack labels way .fork x x' new u) m)
    (hswitch : SwitchesTo new m) (y : Leftovers)
    : ChildStarts labels way x x' p new u m y := by
  obtain ⟨n, hn, hroom, hsaved⟩ := exists_frameBase
  have hlt : n + 19 = 1024 := hn
  obtain ⟨henter, hret, hframe⟩ := frame_enterRoutine hp hesp0 hmsr hn labels way x
  obtain ⟨hesp, hebp, hwords⟩ := frame_inRoutine hp hesp0 hmsr hn labels way x x'
  obtain ⟨hkesp, hfork, hcopy⟩ := mem_forkStack hp hnew hesp hebp (by omega) hroom labels
  obtain ⟨hesp', heip', hmem'⟩ := firstSwitch hnew hkesp hroom (by omega) hkept hswitch y
  have hback : (m.innerTaskSwitch y).retFromFork.esp = wordAt new (n + 3) := by
    rw [retFromFork_eq hesp']
  have hchild : ∀ i, n + 2 ≤ i → i < kernelStackSize →
      (m.innerTaskSwitch y).retFromFork.mem (wordAt new i) =
        (u.enterRoutine labels way x).mem (wordAt p i) := by
    intro i hle hi
    rw [retFromFork_eq hesp', ← hwords i hle hi, ← hcopy i hle hi, ← hmem' i (by omega) hi]
    refine Function.update_of_ne ?_ _ _
    rw [Ne, wordAt_inj hnew hnew hi (by omega)]
    omega
  constructor
  . exact heip'.trans hfork
  . rw [← hret, ← hchild (n + 2) le_rfl (by omega), retFromFork_eq hesp']
  . rw [retFromFork_eq hesp']
  . rw [hback, hsaved]
  . intro i hle hi
    exact hchild i (by omega) hi
  . intro z
    have hframe' := hframe.congr (b := new) fun i hi _ => hchild (n + 3 + i) (by omega) (by omega)
    obtain ⟨huser, heax⟩ := hframe'.leave hnew hback (by omega) z
    refine ⟨huser, heax.trans ?_⟩
    rw [retFromFork_eq hesp']
  . intro z z' r
    have hparent : ∀ i, n + 2 ≤ i → i < kernelStackSize →
        (madeStack labels way .fork x x' new u).mem (wordAt p i) =
          (u.enterRoutine labels way x).mem (wordAt p i) :=
      fun i hle hi => (mem_forkStack_of_ne hp hnew hesp hebp (by omega) labels hp hne.symm hi).trans
        (hwords i hle hi)
    have hebpr : (madeStack labels way .fork x x' new u).regs.ebp = wordAt p (n + 1) := hebp
    obtain ⟨hespr, hr, hmemr⟩ := returnC_eq hebpr z r (u.enterRoutine labels way x)
    have hframe' := hframe.congr fun i hi _ =>
      (congrFun hmemr _).trans (hparent (n + 3 + i) (by omega) (by omega))
    obtain ⟨huser, heax⟩ := hframe'.leave hp hespr (by omega) z'
    exact ⟨huser, heax.trans hr⟩

theorem threadStarts (hp : Aligned p) (hnew : Aligned new) (hesp0 : u.esp0 = kernelEsp p)
    (hmsr : u.msr175 = kernelEsp p) (hkept : StackKept new (madeStack labels way .clone x x' new u) m)
    (hswitch : SwitchesTo new m) (y : Leftovers) : ThreadStarts labels way new u m y := by
  obtain ⟨n, hn, hroom, hsaved⟩ := exists_frameBase
  have hlt : n + 19 = 1024 := hn
  obtain ⟨henter, hret, hframe⟩ := frame_enterRoutine hp hesp0 hmsr hn labels way x
  obtain ⟨hesp, hebp, hwords⟩ := frame_inRoutine hp hesp0 hmsr hn labels way x x'
  obtain ⟨hkesp, hcopy⟩ := mem_cloneStack hp hnew hesp hebp (by omega) hroom (by omega)
  obtain ⟨hesp', heip', hmem'⟩ := firstSwitch hnew hkesp (by omega) (by omega) hkept hswitch y
  have hthread : ∀ i, n + 2 ≤ i → i < kernelStackSize →
      (m.innerTaskSwitch y).mem (wordAt new i) =
        if i = n + 14 then u.regs.ebx else if i = n + 17 then u.regs.ecx
        else (u.enterRoutine labels way x).mem (wordAt p i) := by
    intro i hle hi
    have hfunction := (hwords (n + 3) (by omega) (by omega)).trans hframe.ebx
    have hstack := (hwords (n + 4) (by omega) (by omega)).trans hframe.ecx
    rw [hmem' i (by omega) hi, hcopy i (by omega) hi, hfunction, hstack, hwords i hle hi,
      show kernelStackSize - 5 = n + 14 by omega, show kernelStackSize - 2 = n + 17 by omega]
  constructor
  . rw [heip', hcopy (n + 2) (by omega) (by omega), if_neg (by omega), if_neg (by omega),
      hwords (n + 2) le_rfl (by omega), hret]
  . rw [hesp', hsaved]
  . intro z
    have hframe' : UserFrame way u new (n + 3) u.regs.ebx u.regs.ecx (m.innerTaskSwitch y) := by
      apply hframe.copy
      . intro i hi _ hstart htop
        rw [hthread (n + 3 + i) (by omega) (by omega), if_neg (by omega), if_neg (by omega)]
      . rw [hthread (n + 3 + 11) (by omega) (by omega), if_pos (by omega)]
      . rw [hthread (n + 3 + 14) (by omega) (by omega), if_neg (by omega), if_pos (by omega)]
    exact (hframe'.leave hnew hesp' (by omega) z).1

/--
A new task starts where its stack has been made to lead, by either way into the kernel and with any state of
the machine when it is first switched to.
-/
theorem startsAs_of_switchesTo (labels : Labels) (way : Way) (call : NewTask) (hp : Aligned p)
    (hnew : Aligned new) (hne : new ≠ p) (hesp0 : u.esp0 = kernelEsp p) (hmsr : u.msr175 = kernelEsp p)
    (hkept : StackKept new (madeStack labels way call x x' new u) m) (hswitch : SwitchesTo new m)
    (y : Leftovers) : StartsAs labels way call x x' p new u m y := by
  cases call with
  | fork => exact childStarts hp hnew hne hesp0 hmsr hkept hswitch y
  | clone => exact threadStarts hp hnew hesp0 hmsr hkept hswitch y

def atInnerCall (p new : Word) (m : Machine) : Machine :=
  { m with
    esp := wordAt p 1000
    mem := Function.update m.mem (wordAt p 1001) new }

theorem switchesTo_atInnerCall (hp : Aligned p) (hne : new ≠ p) (m : Machine)
    : SwitchesTo new (atInnerCall p new m) := by
  have hesp : (atInnerCall p new m).esp = wordAt p (999 + 1) := rfl
  refine ⟨p, 999, hp, hne.symm, by decide, by decide, hesp, ?_⟩
  unfold atInnerCall
  dsimp only
  exact Function.update_self ..

theorem stackKept_atInnerCall (hp : Aligned p) (hnew : Aligned new) (hne : new ≠ p) (m : Machine)
    : StackKept new m (atInnerCall p new m) := by
  have hkept : ∀ i < kernelStackSize,
      (atInnerCall p new m).mem (wordAt new i) = m.mem (wordAt new i) := by
    intro i hi
    unfold atInnerCall
    dsimp only
    refine Function.update_of_ne ?_ _ _
    rw [Ne, wordAt_inj hnew hp hi (by decide)]
    exact fun heq => hne heq.1
  exact ⟨hkept 2 (by decide), fun i _ hi => hkept i hi⟩

def userOf (p : Word) : Machine :=
  { Switching.zeroMachine with
    esp0 := kernelEsp p
    msr175 := kernelEsp p
    regs := { eax := 0, ebx := 0x100200, ecx := 0x11F000, edx := 0, esi := 0, edi := 0, ebp := 0x11E000 } }

theorem esp0_userOf (p : Word) : (userOf p).esp0 = kernelEsp p :=
  rfl

theorem msr175_userOf (p : Word) : (userOf p).msr175 = kernelEsp p :=
  rfl

def firstDispatch (way : Way) (call : NewTask) (p new : Word) : Machine :=
  atInnerCall p new (madeStack someLabels way call zeroLeftovers zeroLeftovers new (userOf p))

theorem startsAs_of_switchesTo_userOf
    : StartsAs someLabels .int80 .fork zeroLeftovers zeroLeftovers 0x50000 0x51000 (userOf 0x50000)
        (firstDispatch .int80 .fork 0x50000 0x51000) zeroLeftovers ∧
      StartsAs someLabels .sysenter .clone zeroLeftovers zeroLeftovers 0x50000 0x51000 (userOf 0x50000)
        (firstDispatch .sysenter .clone 0x50000 0x51000) zeroLeftovers := by
  have hp : Aligned 0x50000 := by decide
  have hnew : Aligned 0x51000 := by decide
  have hne : (0x51000 : Word) ≠ 0x50000 := by decide
  constructor
  . exact startsAs_of_switchesTo someLabels .int80 .fork hp hnew hne (esp0_userOf _) (msr175_userOf _)
      (stackKept_atInnerCall hp hnew hne _) (switchesTo_atInnerCall hp hne _) zeroLeftovers
  . exact startsAs_of_switchesTo someLabels .sysenter .clone hp hnew hne (esp0_userOf _) (msr175_userOf _)
      (stackKept_atInnerCall hp hnew hne _) (switchesTo_atInnerCall hp hne _) zeroLeftovers

theorem not_threadAsCreator_sysenter
    : ¬ThreadAsCreator .sysenter (userOf 0x50000) (firstDispatch .sysenter .clone 0x50000 0x51000)
        zeroLeftovers zeroLeftovers := by
  rintro ⟨-, -, hregs⟩
  have hp : Aligned 0x50000 := by decide
  have hnew : Aligned 0x51000 := by decide
  have hne : (0x51000 : Word) ≠ 0x50000 := by decide
  have hstarts : ThreadStarts someLabels .sysenter 0x51000 (userOf 0x50000)
      (firstDispatch .sysenter .clone 0x50000 0x51000) zeroLeftovers :=
    threadStarts hp hnew (esp0_userOf _) (msr175_userOf _) (stackKept_atInnerCall hp hnew hne _)
      (switchesTo_atInnerCall hp hne _) zeroLeftovers
  obtain ⟨-, hedx, -, -⟩ := (hstarts.starts zeroLeftovers).sysenter rfl
  have hcreator := congrArg Regs.edx hregs
  dsimp only at hcreator
  rw [hedx] at hcreator
  exact absurd hcreator (by decide)

end FirstDispatch

end Zeos
