import Zeos.Spec.Bootsect

/-!
How the boot sector uses its stack in the same memory as everything else: calls of the BIOS in between leave it as
it is, so that `read_track` comes back with the registers of its caller.
-/

namespace Zeos

namespace Bootsect

theorem Labels.bounds (labels : Labels)
    : labels.sread.toNat + 6 ≤ 433 ∧ labels.head.toNat = labels.sread.toNat + 2 ∧
      labels.track.toNat = labels.sread.toNat + 4 := by
  have hsread := labels.sread_le
  have hsectors := labels.sectors_le
  unfold Labels.head Labels.track
  bv_omega

namespace Loader

/--
`ws` has been pushed since `l₀`. Other memory has only changed at the places `changes`.
-/
structure Pushed (changes : Nat → Prop) (l₀ : Loader) (ws : List (BitVec 16)) (l : Loader) : Prop where
  sp : l.sp.toNat + 2 * ws.length = l₀.sp.toNat
  es : l.es = l₀.es
  row : Halves.Row l.mem (physical initSeg l.sp) ws
  kept : ∀ a, ¬changes a → ¬l₀.Unused a → l.mem a = l₀.mem a

variable {changes : Nat → Prop} {l₀ l l' : Loader} {ws : List (BitVec 16)} {v : BitVec 16}

theorem physical_initSeg (off : BitVec 16) : physical initSeg off = 0x90000 + off.toNat :=
  rfl

theorem unused_iff {a : Nat} : l.Unused a ↔ 0x90200 ≤ a ∧ a < 0x90000 + l.sp.toNat :=
  Iff.rfl

theorem regs_pushes (vs : List (BitVec 16)) (l : Loader)
    : ∃ sp mem, l.pushes vs = { l with sp := sp, mem := mem } := by
  induction vs generalizing l with
  | nil => exact ⟨_, _, rfl⟩
  | cons v vs ih => exact ih (l.push v)

namespace Pushed

theorem refl (l : Loader) : Pushed changes l [] l :=
  ⟨rfl, rfl, trivial, fun _ _ _ => rfl⟩

theorem of_eq (h : Pushed changes l₀ ws l) (hsp : l'.sp = l.sp) (hes : l'.es = l.es) (hmem : l'.mem = l.mem)
    : Pushed changes l₀ ws l' := by
  constructor
  . rw [hsp]
    exact h.sp
  . rw [hes]
    exact h.es
  . rw [hsp, hmem]
    exact h.row
  . rw [hmem]
    exact h.kept

theorem push (h : Pushed changes l₀ ws l) (hroom : 514 ≤ l.sp.toNat)
    : Pushed changes l₀ (v :: ws) (l.push v) := by
  have hnat : (l.sp - 2).toNat = l.sp.toNat - 2 := by
    bv_omega
  have hsp := h.sp
  have hword : physical initSeg (l.sp - 2) + 2 = physical initSeg l.sp := by
    rw [physical_initSeg, physical_initSeg]
    omega
  constructor
  . change (l.sp - 2).toNat + 2 * (v :: ws).length = _
    rw [List.length_cons]
    omega
  . exact h.es
  . apply Halves.Row.cons
    rw [hword]
    exact h.row
  . intro a hchanges hunused
    rw [← h.kept a hchanges hunused]
    apply Halves.write_outside
    rw [unused_iff] at hunused
    rw [physical_initSeg]
    omega

theorem pushes (h : Pushed changes l₀ ws l) (vs : List (BitVec 16)) (hroom : 512 + 2 * vs.length ≤ l.sp.toNat)
    : Pushed changes l₀ (vs.reverse ++ ws) (l.pushes vs) := by
  induction vs generalizing l ws with
  | nil => exact h
  | cons v vs ih =>
    rw [List.length_cons] at hroom
    have hnat : (l.push v).sp.toNat = l.sp.toNat - 2 := by
      change (l.sp - 2).toNat = _
      bv_omega
    have hrest := ih (h.push (v := v) (by omega)) (by omega)
    rw [List.reverse_cons, List.append_assoc]
    exact hrest

theorem top_eq {i : Nat} (h : Pushed changes l₀ ws l) (hi : ws[i]? = some v)
    : l.top (BitVec.ofNat 16 i) = v := by
  have hlt : i < ws.length := (List.getElem?_eq_some_iff.mp hi).1
  have hsp := h.sp
  have hword : physical initSeg (l.sp + 2 * BitVec.ofNat 16 i) = physical initSeg l.sp + 2 * i := by
    rw [physical_initSeg, physical_initSeg]
    bv_omega
  unfold top
  rw [hword]
  exact h.row.read_eq hi

theorem drop (vs : List (BitVec 16)) (h : Pushed changes l₀ (vs ++ ws) l)
    (hsp : l'.sp = l.sp + BitVec.ofNat 16 (2 * vs.length)) (hes : l'.es = l.es) (hmem : l'.mem = l.mem)
    : Pushed changes l₀ ws l' := by
  have hold := h.sp
  rw [List.length_append] at hold
  have hnat : l'.sp.toNat = l.sp.toNat + 2 * vs.length := by
    rw [hsp]
    bv_omega
  constructor
  . omega
  . exact hes.trans h.es
  . rw [hmem, physical_initSeg, hnat, ← Nat.add_assoc]
    exact h.row.drop
  . rw [hmem]
    exact h.kept

theorem serviced (h : Pushed changes l₀ ws l) (hint : Serviced changes l l')
    (hapart : ∀ a, changes a → a < physical initSeg l.sp ∨ physical initSeg l₀.sp ≤ a)
    : Pushed changes l₀ ws l' := by
  have hsp := h.sp
  constructor
  . rw [hint.sp]
    exact hsp
  . exact hint.es.trans h.es
  . rw [hint.sp]
    apply h.row.congr
    intro b hle hlt
    rw [physical_initSeg] at *
    apply hint.kept
    . intro hb
      have := hapart b hb
      rw [physical_initSeg] at this
      omega
    . rw [unused_iff]
      omega
  . intro a hchanges hunused
    rw [← h.kept a hchanges hunused]
    apply hint.kept a hchanges
    rw [unused_iff] at *
    omega

theorem mono {changes' : Nat → Prop} (h : Pushed changes l₀ ws l) (himp : ∀ a, changes a → changes' a)
    : Pushed changes' l₀ ws l :=
  ⟨h.sp, h.es, h.row, fun a ha => h.kept a fun hchanges => ha (himp a hchanges)⟩

end Pushed

section Registers

def saved (l : Loader) : List (BitVec 16) :=
  [l.di, l.si, l.bp, l.sp, l.bx, l.dx, l.cx, l.ax]

theorem Pushed.pusha (h : Pushed changes l₀ ws l) (hroom : 528 ≤ l.sp.toNat)
    : Pushed changes l₀ (l.saved ++ ws) l.pusha :=
  h.pushes [l.ax, l.cx, l.dx, l.bx, l.sp, l.bp, l.si, l.di] hroom

theorem toNat_sp_pusha (hroom : 528 ≤ l.sp.toNat) : l.pusha.sp.toNat + 16 = l.sp.toNat := by
  have hpusha : Pushed (fun _ => False) l (l.saved ++ []) l.pusha := (Pushed.refl l).pusha hroom
  exact hpusha.sp

theorem Pushed.popa {r : Loader} (h : Pushed changes l₀ (r.saved ++ ws) l)
    : Pushed changes l₀ ws l.popa ∧
      l.popa = { r with sp := l.popa.sp, es := l.es, ip := l.ip, mem := l.mem } := by
  constructor
  . exact drop r.saved h rfl rfl rfl
  . have hdi : l.top 0 = r.di := h.top_eq (i := 0) rfl
    have hsi : l.top 1 = r.si := h.top_eq (i := 1) rfl
    have hbp : l.top 2 = r.bp := h.top_eq (i := 2) rfl
    have hbx : l.top 4 = r.bx := h.top_eq (i := 4) rfl
    have hdx : l.top 5 = r.dx := h.top_eq (i := 5) rfl
    have hcx : l.top 6 = r.cx := h.top_eq (i := 6) rfl
    have hax : l.top 7 = r.ax := h.top_eq (i := 7) rfl
    unfold Loader.popa
    dsimp only
    rw [hdi, hsi, hbp, hbx, hdx, hcx, hax]

theorem Pushed.ret (h : Pushed changes l₀ (v :: ws) l)
    : Pushed changes l₀ ws l.ret ∧ l.ret = { l with ip := v, sp := l.ret.sp } := by
  constructor
  . exact drop [v] h rfl rfl rfl
  . have htop : l.top 0 = v := h.top_eq (i := 0) rfl
    unfold Loader.ret
    rw [htop]

end Registers

section ReadTrack

variable {labels : Labels} {bios : Bios} {disk : Disk} {own : Nat → Prop}

theorem not_own (hbios : bios.Serves disk own) {a : Nat} (hge : 0x10000 ≤ a) (hlt : a < 0x94000)
    : ¬own a := by
  intro hown
  have hapart := hbios.apart a hown
  have hend : physical initSeg 0x4000 = 0x94000 := rfl
  unfold loadBase at hapart
  omega

theorem Pushed.sector (hbios : bios.Serves disk own) (h : Pushed own l₀ ws l) {a : Nat} (hge : 0x90000 ≤ a)
    (hlt : a < 0x90200) : l.mem a = l₀.mem a := by
  apply h.kept _ (not_own hbios (by omega) (by omega))
  rw [unused_iff]
  omega

theorem Pushed.var (hbios : bios.Serves disk own) (h : Pushed own l₀ ws l) {off : BitVec 16}
    (hoff : off.toNat + 2 ≤ 512) : l.var off = l₀.var off := by
  apply Halves.read_congr
  intro i hi
  rw [physical_initSeg]
  exact h.sector hbios (by omega) (by omega)

structure Asked (labels : Labels) (l r : Loader) : Prop where
  ax : r.ax = 2#8 ++ low l.ax
  bx : r.bx = l.bx
  cx : r.cx = low (l.var labels.track) ++ low (l.var labels.sread + 1)
  dx : r.dx = (low (l.var labels.head) ++ low (l.var labels.head)) &&& 0x0100
  es : r.es = l.es

theorem apart_stack (hbios : bios.Serves disk own) (htop : l₀.sp.toNat ≤ 0x4000) (a : Nat) (hown : own a)
    : a < physical initSeg l.sp ∨ physical initSeg l₀.sp ≤ a := by
  have hapart := hbios.apart a hown
  have hend : physical initSeg 0x4000 = 0x94000 := rfl
  unfold loadBase at hapart
  rw [physical_initSeg, physical_initSeg]
  omega

theorem Pushed.int10 (hbios : bios.Serves disk own) (h : Pushed own l₀ ws l) (hprints : l.Prints)
    (hroomy : l.Roomy) (htop : l₀.sp.toNat ≤ 0x4000) : Pushed own l₀ ws (bios.int10 l) :=
  h.serviced (hbios.int10 l hprints hroomy) (apart_stack hbios htop)

theorem Pushed.sp_eq (h : Pushed changes l₀ ws l) (h' : Pushed changes l₀ ws l') : l'.sp = l.sp := by
  have hsp := h.sp
  have hsp' := h'.sp
  apply BitVec.eq_of_toNat_eq
  omega

theorem printDot_spec (hbios : bios.Serves disk own) (h : Pushed own l₀ ws l) (hroom : 0x1210 ≤ l.sp.toNat)
    (htop : l₀.sp.toNat ≤ 0x4000)
    : Pushed own l₀ ws (l.printDot bios) ∧
      ∃ ip mem, l.printDot bios = { l with ip := ip, mem := mem } := by
  have hpusha := h.pusha (by omega)
  have hsp := toNat_sp_pusha (l := l) (by omega)
  have hprints : Loader.Prints { l.pusha with ax := 0x0e2e, bx := 7 } := by
    change high 0x0e2e ∈ _
    decide
  have hback : Pushed own l₀ (l.saved ++ ws) (bios.int10 { l.pusha with ax := 0x0e2e, bx := 7 }) := by
    refine Pushed.int10 hbios (hpusha.of_eq rfl rfl rfl) hprints ?_ htop
    change 512 + 4096 ≤ l.pusha.sp.toNat
    omega
  obtain ⟨hpopa, heq⟩ := hback.popa
  refine ⟨hpopa, ?_⟩
  unfold printDot
  rw [heq, h.sp_eq hpopa, hback.es.trans h.es.symm]
  exact ⟨_, _, rfl⟩

/-- With the registers of its caller on the stack, `read_track` comes to `int 0x13`. -/
theorem toInt13_spec (hbios : bios.Serves disk own) (h : Pushed own l₀ ws l) (hroom : 0x2000 ≤ l.sp.toNat)
    (htop : l₀.sp.toNat ≤ 0x4000)
    : Asked labels l (l.toInt13 labels bios) ∧
      ∃ vs, vs.length = 4 ∧ Pushed own l₀ (vs ++ (l.saved ++ ws)) (l.toInt13 labels bios) := by
  obtain ⟨hsread, hhead, htrack⟩ := labels.bounds
  have hpusha := h.pusha (by omega)
  have hsp := toNat_sp_pusha (l := l) (by omega)
  obtain ⟨hdot, ip, mem, heq⟩ := printDot_spec hbios hpusha (by omega) htop
  have hvar : ∀ off : BitVec 16, off.toNat + 2 ≤ 512 → (l.pusha.printDot bios).var off = l.var off := by
    intro off hoff
    rw [hdot.var hbios hoff, h.var hbios hoff]
  obtain ⟨sp, mem', hregs⟩ : ∃ sp mem, l.pusha = { l with sp := sp, mem := mem } := regs_pushes _ l
  have hax : (l.pusha.printDot bios).ax = l.ax := by
    rw [heq, hregs]
  have hbx : (l.pusha.printDot bios).bx = l.bx := by
    rw [heq, hregs]
  have hsp' := congrArg BitVec.toNat (hpusha.sp_eq hdot)
  unfold toInt13
  dsimp only
  generalize l.pusha.printDot bios = m at *
  constructor
  . obtain ⟨sp, mem, hpushes⟩ := regs_pushes _ (m.int13Args labels)
    rw [hpushes]
    constructor
    . change (2#8 ++ low m.ax : BitVec 16) = _
      rw [hax]
    . exact hbx
    . change (low (m.var labels.track) ++ low (m.var labels.sread + 1) : BitVec 16) = _
      rw [hvar _ (by omega), hvar _ (by omega)]
    . change (low (m.var labels.head) ++ low (m.var labels.head) : BitVec 16) &&& 0x0100 = _
      rw [hvar _ (by omega)]
    . exact hdot.es.trans h.es.symm
  . have hargs : Pushed own l₀ (l.saved ++ ws) (m.int13Args labels) := hdot.of_eq rfl rfl rfl
    refine ⟨_, rfl, hargs.pushes _ ?_⟩
    change 512 + 2 * 4 ≤ m.sp.toNat
    omega

theorem asked_push (hbios : bios.Serves disk own) (hroom : 0x2002 ≤ l.sp.toNat) (htop : l.sp.toNat ≤ 0x4000)
    : Asked labels l ((l.push v).toInt13 labels bios) := by
  obtain ⟨hsread, hhead, htrack⟩ := labels.bounds
  have hpush : Pushed own l [v] (l.push v) := (Pushed.refl l).push (by omega)
  have hnat : (l.push v).sp.toNat + 2 = l.sp.toNat := hpush.sp
  have hasked : Asked labels (l.push v) ((l.push v).toInt13 labels bios) :=
    (toInt13_spec hbios hpush (by omega) htop).1
  constructor
  . exact hasked.ax
  . exact hasked.bx
  . rw [hasked.cx, hpush.var hbios (by omega), hpush.var hbios (by omega)]
  . rw [hasked.dx, hpush.var hbios (by omega)]
  . exact hasked.es

/--
`read_track` comes back behind its call with the registers of its caller, and the sectors are in memory.
-/
theorem readTrack_spec (hbios : bios.Serves disk own) (hroom : 0x2002 ≤ l.sp.toNat)
    (htop : l.sp.toNat ≤ 0x4000) (hreads : ((l.push v).toInt13 labels bios).Reads)
    (hbuffer : ∀ a, ((l.push v).toInt13 labels bios).InBuffer a → loadBase ≤ a ∧ a < physical initSeg 0)
    : ∃ mem, (l.push v).readTrack labels bios = { l with ip := v, mem := mem } ∧
        ((l.push v).toInt13 labels bios).Read disk mem ∧
        ∀ a, ¬own a → ¬((l.push v).toInt13 labels bios).InBuffer a → ¬l.Unused a → mem a = l.mem a := by
  have hpush : Pushed own l [v] (l.push v) := (Pushed.refl l).push (by omega)
  have hnat : (l.push v).sp.toNat + 2 = l.sp.toNat := hpush.sp
  obtain ⟨vs, hlen, hpushed⟩ :
      ∃ vs, vs.length = 4 ∧ Pushed own l (vs ++ ((l.push v).saved ++ [v])) ((l.push v).toInt13 labels bios) :=
    (toInt13_spec hbios hpush (by omega) htop).2
  have hfree : ∀ a, ((l.push v).toInt13 labels bios).InBuffer a →
      ¬own a ∧ ¬((l.push v).toInt13 labels bios).Unused a := by
    intro a ha
    have hsector : physical initSeg 0 = 0x90000 := rfl
    obtain ⟨hge, hlt⟩ := hbuffer a ha
    refine ⟨not_own hbios hge (by omega), ?_⟩
    rw [unused_iff]
    omega
  unfold readTrack
  dsimp only
  generalize (l.push v).toInt13 labels bios = r at *
  have hroomy : r.Roomy := by
    have hsp := hpushed.sp
    rw [List.length_append, hlen] at hsp
    change _ + 2 * (4 + (8 + 1)) = _ at hsp
    unfold Roomy
    omega
  obtain ⟨hint, hread⟩ := hbios.int13 r hreads hroomy hfree
  have hafter : Pushed (fun a => own a ∨ r.InBuffer a) l (vs ++ ((l.push v).saved ++ [v])) (bios.int13 r) := by
    apply (hpushed.mono fun _ => .inl).serviced hint
    rintro a (hown | hin)
    . exact apart_stack hbios htop a hown
    . exact .inl (Nat.lt_of_lt_of_le (hbuffer a hin).2 (Nat.le_add_right _ _))
  have hdrop : Pushed (fun a => own a ∨ r.InBuffer a) l ((l.push v).saved ++ [v])
      { bios.int13 r with sp := (bios.int13 r).sp + 8 } := by
    apply hafter.drop vs
    . rw [hlen]
      rfl
    . rfl
    . rfl
  obtain ⟨hpopa, hregs⟩ := hdrop.popa
  obtain ⟨hret, hip⟩ := hpopa.ret
  refine ⟨_, ?_, hread, fun a hown hbuffer hunused => hafter.kept a (not_or.mpr ⟨hown, hbuffer⟩) hunused⟩
  rw [hip, (Pushed.refl l).sp_eq hret, hregs]
  congr 1
  exact hafter.es

end ReadTrack

end Loader

end Bootsect

end Zeos
