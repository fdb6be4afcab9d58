import Zeos.Lib.Simulation
import Zeos.Spec.Paging
import Zeos.Lemmas.Mm
import Zeos.Lib.Descending

/-!
Every operation on the tables of the processor does what `mm.c` is for, and user mode never reaches a table.
-/

namespace Zeos

namespace RawEntry

variable {e : BitVec 32} {v : Nat}

theorem pbaseAddr_or {c : BitVec 32} (hc : c.extractLsb' 12 20 = 0) : pbaseAddr (e ||| c) = pbaseAddr e := by
  unfold pbaseAddr
  rw [BitVec.extractLsb'_or, hc]
  exact BitVec.or_zero

theorem pbaseAddr_setPbaseAddr : pbaseAddr (setPbaseAddr v e) = BitVec.ofNat 20 v := by
  unfold pbaseAddr setPbaseAddr
  exact BitVec.extractLsb'_append_eq_left

theorem getElem_setPbaseAddr {i : Nat} (hi : i < 12) : (setPbaseAddr v e)[i] = e[i] := by
  unfold setPbaseAddr
  rw [BitVec.getElem_append, dif_pos hi, BitVec.getElem_extractLsb', Nat.zero_add, BitVec.getLsbD_eq_getElem]

theorem decode_setAccessed : decode (setAccessed e) = decode e := by
  unfold decode setAccessed
  rw [pbaseAddr_or (by decide)]
  simp [present, rw, user]

theorem decode_setDirty : decode (setDirty e) = decode e := by
  unfold decode setDirty
  rw [pbaseAddr_or (by decide)]
  simp [present, rw, user]

theorem decode_zero : decode 0 = .zero := by
  decide

variable (hv : v < 2 ^ 20)
include hv

theorem toNat_pbaseAddr_setPbaseAddr : (pbaseAddr (setPbaseAddr v e)).toNat = v := by
  rw [pbaseAddr_setPbaseAddr, BitVec.toNat_ofNat, Nat.mod_eq_of_lt hv]

theorem decode_ssEntry : decode (setPresent (setRw (setUser (setPbaseAddr v 0)))) =
    { present := true, rw := true, user := true, pbaseAddr := v } := by
  unfold decode setPresent setRw setUser
  rw [pbaseAddr_or (by decide), pbaseAddr_or (by decide), pbaseAddr_or (by decide), toNat_pbaseAddr_setPbaseAddr hv]
  simp [present, rw, user]

theorem decode_codeEntry : decode (setPresent (setUser (setPbaseAddr v 0))) =
    { present := true, rw := false, user := true, pbaseAddr := v } := by
  unfold decode setPresent setUser
  rw [pbaseAddr_or (by decide), pbaseAddr_or (by decide), toNat_pbaseAddr_setPbaseAddr hv]
  simp [present, rw, user, getElem_setPbaseAddr]

theorem decode_kernelEntry : decode (setPresent (setRw (setPbaseAddr v 0))) =
    { present := true, rw := true, user := false, pbaseAddr := v } := by
  unfold decode setPresent setRw
  rw [pbaseAddr_or (by decide), pbaseAddr_or (by decide), toNat_pbaseAddr_setPbaseAddr hv]
  simp [present, rw, user, getElem_setPbaseAddr]

end RawEntry

namespace Layout

variable {l : Layout} {a f o i j : Nat} {d : DirIx}

def EntryAt (l : Layout) (a : Nat) : Prop :=
  a % 4 = 0 ∧ ((l.dirPages ≤ a ∧ a < l.dirPages + nrTasks * pageSize) ∨
    (l.pagusrTable ≤ a ∧ a < l.pagusrTable + nrTasks * pageSize))

theorem entryAt_table (hi : i < nrTasks * totalPages) : l.EntryAt (l.pagusrTable + 4 * i) := by
  have haligned := l.pagusrTable_aligned
  unfold EntryAt nrTasks totalPages pageSize at *
  omega

theorem entryAt_directory (hj : j < totalPages) : l.EntryAt (Paged.getDIR l d + 4 * j) := by
  have haligned := l.dirPages_aligned
  have hd := d.isLt
  unfold EntryAt Paged.getDIR nrTasks totalPages pageSize at *
  omega

theorem entry_index (hi : i < totalPages) (d : DirIx) : Mm.getPT d + i < nrTasks * totalPages := by
  have hd := d.isLt
  unfold Mm.getPT nrTasks totalPages at *
  omega

theorem entry_address (l : Layout) (d : DirIx) (i : Nat)
    : l.pagusrTable + pageSize * d + 4 * i = l.pagusrTable + 4 * (Mm.getPT d + i) := by
  unfold Mm.getPT pageSize totalPages
  omega

theorem directory_ne_table (hj : j < totalPages) (hi : i < nrTasks * totalPages)
    : Paged.getDIR l d + 4 * j ≠ l.pagusrTable + 4 * i := by
  have hd := d.isLt
  have hapart := l.apart
  unfold Paged.getDIR nrTasks totalPages pageSize at *
  omega

theorem outside (hf : ¬l.HoldsTable f) (ho : o < pageSize) (ha : l.EntryAt a)
    : pageSize * f + o < a ∨ a + 4 ≤ pageSize * f + o := by
  have hdir := l.dirPages_aligned
  have htable := l.pagusrTable_aligned
  obtain ⟨haligned, hin⟩ := ha
  unfold HoldsTable at hf
  unfold nrTasks pageSize at *
  omega

theorem not_holdsTable (hf : numPagKernel ≤ f) : ¬l.HoldsTable f := by
  have hdir := l.dirPages_kernel
  have htable := l.pagusrTable_kernel
  unfold HoldsTable
  unfold nrTasks pageSize numPagKernel at *
  omega

end Layout

namespace Paged

open RawEntry

section Writes

variable {l : Layout} {s : Paged} {mm : Mm} {c d : DirIx} {a f o i page : Nat} {e : BitVec 32} {v : Byte}

theorem getPT_eq (h : Represents l s mm c) (d : DirIx) : s.getPT l d = l.pagusrTable + pageSize * d := by
  have hbase : (pbaseAddr (Words.read s.mem (getDIR l d))).toNat = l.pagusrTable / pageSize + d :=
    congrArg PageTableEntry.pbaseAddr (h.directory d)
  have haligned := l.pagusrTable_aligned
  unfold getPT
  rw [hbase]
  unfold pageSize at *
  omega

theorem Represents.write_same (h : Represents l s mm c) (ha : l.EntryAt a)
    (he : decode e = decode (Words.read s.mem a))
    : Represents l { s with mem := Words.write a e s.mem } mm c := by
  have hread : ∀ b, l.EntryAt b → decode (Words.read (Words.write a e s.mem) b) = decode (Words.read s.mem b) := by
    intro b hb
    rw [Words.read_write_aligned ha.1 hb.1]
    split
    next heq => rw [heq, he]
    next => rfl
  refine ⟨h.physMem, h.pg, h.cr3, ?_, ?_, ?_, ?_⟩
  . intro i hi
    rw [hread _ (l.entryAt_table hi)]
    exact h.table i hi
  . intro d
    exact (hread _ (l.entryAt_directory (j := 0) (by decide))).trans (h.directory d)
  . intro d j hj hlt
    have hpresent := congrArg PageTableEntry.present (hread _ (l.entryAt_directory (d := d) hlt))
    exact hpresent.trans (h.rest d j hj hlt)
  . intro f hf o ho
    rw [← h.frames f hf o ho]
    exact Words.write_outside (l.outside hf ho ha)

theorem Represents.write_table (h : Represents l s mm c) (hi : i < nrTasks * totalPages) (e : BitVec 32)
    : Represents l { s with mem := Words.write (l.pagusrTable + 4 * i) e s.mem } (mm.setEntry i (decode e)) c := by
  have hentry := l.entryAt_table hi
  have hdir : ∀ d : DirIx, ∀ j < totalPages,
      Words.read (Words.write (l.pagusrTable + 4 * i) e s.mem) (getDIR l d + 4 * j) =
        Words.read s.mem (getDIR l d + 4 * j) := by
    intro d j hj
    rw [Words.read_write_aligned hentry.1 (l.entryAt_directory hj).1, if_neg (l.directory_ne_table hj hi)]
  refine ⟨h.physMem, h.pg, h.cr3, ?_, ?_, ?_, ?_⟩
  . intro j hj
    rw [Words.read_write_aligned hentry.1 (l.entryAt_table hj).1]
    unfold Mm.setEntry
    dsimp only
    by_cases hji : j = i
    . rw [if_pos hji, if_pos (by rw [hji])]
    . rw [if_neg hji, if_neg (by omega)]
      exact h.table j hj
  . intro d
    exact (congrArg decode (hdir d 0 (by decide))).trans (h.directory d)
  . intro d j hj hlt
    exact (congrArg present (hdir d j hlt)).trans (h.rest d j hj hlt)
  . intro f hf o ho
    have hframe : (mm.setEntry i (decode e)).frames f o = mm.frames f o := rfl
    rw [hframe, ← h.frames f hf o ho]
    exact Words.write_outside (l.outside hf ho hentry)

theorem Represents.setEntry (h : Represents l s mm c) (hpage : page < totalPages) (e : BitVec 32)
    : Represents l (s.setEntry (l.pagusrTable + pageSize * d) page e) (mm.setEntry (Mm.getPT d + page) (decode e)) c := by
  have hwrite := h.write_table (Layout.entry_index hpage d) e
  rw [← l.entry_address d page] at hwrite
  exact hwrite

theorem Represents.setByte (h : Represents l s mm c) (hf : ¬l.HoldsTable f) (ho : o < pageSize) (v : Byte)
    : Represents l { s with mem := Function.update s.mem (pageSize * f + o) v } (mm.setByte f o v) c := by
  have hread : ∀ a, l.EntryAt a → Words.read (Function.update s.mem (pageSize * f + o) v) a = Words.read s.mem a :=
    fun a ha => Words.read_update (l.outside hf ho ha)
  refine ⟨h.physMem, h.pg, h.cr3, ?_, ?_, ?_, ?_⟩
  . intro i hi
    exact (congrArg decode (hread _ (l.entryAt_table hi))).trans (h.table i hi)
  . intro d
    exact (congrArg decode (hread _ (l.entryAt_directory (j := 0) (by decide)))).trans (h.directory d)
  . intro d j hj hlt
    exact (congrArg present (hread _ (l.entryAt_directory hlt))).trans (h.rest d j hj hlt)
  . intro g hg p hp
    have haddr : pageSize * g + p = pageSize * f + o ↔ g = f ∧ p = o := by
      unfold pageSize at *
      omega
    unfold Mm.setByte
    dsimp only
    rw [Function.update_apply]
    simp only [haddr]
    rw [h.frames g hg p hp]

end Writes

section Walk

variable {l : Layout} {s : Paged} {mm : Mm} {c : DirIx} {a : Addr} {mode : Mode} {write : Bool}

def allowed (mode : Mode) (write : Bool) (e : PageTableEntry) : Bool :=
  match mode with
  | .kernel => true
  | .user => e.user && (!write || e.rw)

theorem cr3_getDIR (l : Layout) (c : DirIx)
    : (BitVec.ofNat 32 (getDIR l c) &&& 0xFFFFF000).toNat = getDIR l c := by
  have hc := c.isLt
  have haligned := l.dirPages_aligned
  have hkernel := l.dirPages_kernel
  have hpage : (BitVec.ofNat 32 (getDIR l c) &&& 0xFFFFF000).toNat = (BitVec.ofNat 32 (getDIR l c)).toNat / 4096 * 4096 :=
    Descending.toNat_page _
  rw [hpage, BitVec.toNat_ofNat]
  unfold getDIR nrTasks pageSize numPagKernel at *
  omega

theorem allows_eq {pde pte : BitVec 32} {base : Nat}
    (h : decode pde = { present := true, rw := true, user := true, pbaseAddr := base })
    : allows mode write pde pte = ((decode pte).present && allowed mode write (decode pte)) := by
  have hpresent : present pde = true := congrArg PageTableEntry.present h
  have hrw : RawEntry.rw pde = true := congrArg PageTableEntry.rw h
  have huser : RawEntry.user pde = true := congrArg PageTableEntry.user h
  unfold allows allowed decode
  rw [hpresent, hrw, huser]
  cases mode with
  | user => simp
  | kernel => simp

theorem decode_markPte (write : Bool) {e : BitVec 32}
    : decode (if write then setDirty (setAccessed e) else setAccessed e) = decode e := by
  split
  . rw [decode_setDirty, decode_setAccessed]
  . exact decode_setAccessed

/-- The directory that is in use has one entry, and that one leads to the page table. -/
theorem walk_eq (h : Represents l s mm c) (mode : Mode) (write : Bool) (a : Addr)
    : match (mm.entryOf (Mm.getPT c) a).filter (allowed mode write) with
      | none => s.walk mode write a = none
      | some e => ∃ s', s.walk mode write a = some (pageSize * e.pbaseAddr + a.toNat % pageSize, s') ∧
          Represents l s' mm c := by
  have ha := a.isLt
  have hc := c.isLt
  have hcr3 := cr3_getDIR l c
  rw [← h.cr3] at hcr3
  unfold walk Mm.entryOf
  rw [if_pos h.pg, hcr3]
  dsimp only
  by_cases htop : a.toNat / (totalPages * pageSize) = 0
  . have hpage : a.toNat / pageSize < totalPages := by
      unfold totalPages pageSize at *
      omega
    have hi := Layout.entry_index hpage c
    have hdir := h.directory c
    have hpte : pageSize * (pbaseAddr (Words.read s.mem (getDIR l c))).toNat + 4 * (a.toNat / pageSize % totalPages) =
        l.pagusrTable + 4 * (Mm.getPT c + a.toNat / pageSize) := by
      have hPT := getPT_eq h c
      unfold getPT at hPT
      rw [hPT, Nat.mod_eq_of_lt hpage, l.entry_address]
    have hentry := h.table _ hi
    -- The processor marks the directory first, and then the entry of the page table.
    have hmark := h.write_same (l.entryAt_directory (d := c) (j := 0) (by decide))
      (decode_setAccessed (e := Words.read s.mem (getDIR l c)))
    have hmark' := hmark.write_same (l.entryAt_table hi) (decode_markPte write)
    have hbase : (decode (setAccessed (Words.read (Words.write (getDIR l c)
        (setAccessed (Words.read s.mem (getDIR l c))) s.mem)
          (l.pagusrTable + 4 * (Mm.getPT c + a.toNat / pageSize))))).pbaseAddr =
        (mm.pagusrTable (Mm.getPT c + a.toNat / pageSize)).pbaseAddr := by
      rw [decode_setAccessed]
      exact congrArg PageTableEntry.pbaseAddr (hmark.table _ hi)
    rw [htop, Nat.mul_zero, Nat.add_zero, hpte, if_pos hpage, allows_eq hdir, hentry]
    cases hpresent : (mm.pagusrTable (Mm.getPT c + a.toNat / pageSize)).present with
    | false => rfl
    | true =>
      cases hallowed : allowed mode write (mm.pagusrTable (Mm.getPT c + a.toNat / pageSize)) with
      | false =>
        rw [if_pos rfl, Option.filter_some, hallowed]
        rfl
      | true =>
        rw [if_pos rfl, Option.filter_some, hallowed]
        exact ⟨_, congrArg (fun b => some (pageSize * b + a.toNat % pageSize, _)) hbase, hmark'⟩
  . have hpage : ¬a.toNat / pageSize < totalPages := by
      unfold totalPages pageSize at *
      omega
    have hrest := h.rest c (a.toNat / (totalPages * pageSize)) (Nat.pos_of_ne_zero htop)
      (by unfold totalPages pageSize; omega)
    have hnot : allows mode write (Words.read s.mem (getDIR l c + 4 * (a.toNat / (totalPages * pageSize))))
        (Words.read s.mem (pageSize * (pbaseAddr (Words.read s.mem
          (getDIR l c + 4 * (a.toNat / (totalPages * pageSize))))).toNat +
            4 * (a.toNat / pageSize % totalPages))) = false := by
      unfold allows
      rw [hrest]
      rfl
    rw [if_neg hpage, hnot]
    rfl

theorem load_rel (h : Represents l s mm c) (a : Addr)
    (hout : ∀ e ∈ (mm.entryOf (Mm.getPT c) a).filter (allowed mode false), ¬l.HoldsTable e.pbaseAddr)
    : Option.Rel (fun x v => x.1 = v ∧ Represents l x.2 mm c) (s.load mode a)
        (((mm.entryOf (Mm.getPT c) a).filter (allowed mode false)).map fun e =>
          mm.frames e.pbaseAddr (a.toNat % pageSize)) := by
  have hwalk := walk_eq h mode false a
  unfold load
  revert hwalk hout
  cases (mm.entryOf (Mm.getPT c) a).filter (allowed mode false) with
  | none =>
    intro _ hwalk
    rw [hwalk]
    exact .none
  | some e =>
    rintro hout ⟨s', hwalk, hs'⟩
    rw [hwalk]
    have hoffset : a.toNat % pageSize < pageSize := Nat.mod_lt _ (by decide)
    exact .some ⟨hs'.frames _ (hout e rfl) _ hoffset, hs'⟩

theorem store_rel (h : Represents l s mm c) (a : Addr) (v : Byte)
    (hout : ∀ e ∈ (mm.entryOf (Mm.getPT c) a).filter (allowed mode true), ¬l.HoldsTable e.pbaseAddr)
    : Option.Rel (fun s' mm' => Represents l s' mm' c) (s.store mode a v)
        (((mm.entryOf (Mm.getPT c) a).filter (allowed mode true)).map fun e =>
          mm.setByte e.pbaseAddr (a.toNat % pageSize) v) := by
  have hwalk := walk_eq h mode true a
  unfold store
  revert hwalk hout
  cases (mm.entryOf (Mm.getPT c) a).filter (allowed mode true) with
  | none =>
    intro _ hwalk
    rw [hwalk]
    exact .none
  | some e =>
    rintro hout ⟨s', hwalk, hs'⟩
    rw [hwalk]
    have hoffset : a.toNat % pageSize < pageSize := Nat.mod_lt _ (by decide)
    exact .some (hs'.setByte (hout e rfl) hoffset v)

end Walk

section Confined

variable {l : Layout} {mm : Mm} {c : DirIx} {a : Addr} {e : PageTableEntry}

theorem filter_kernel (write : Bool) (x : Option PageTableEntry) : x.filter (allowed .kernel write) = x := by
  cases x with
  | none => rfl
  | some e => rfl

theorem userLoad_eq (mm : Mm) (pt : Nat) (a : Addr) : mm.userLoad pt a =
    ((mm.entryOf pt a).filter (allowed .user false)).map fun e => mm.frames e.pbaseAddr (a.toNat % pageSize) := by
  unfold Mm.userLoad
  cases mm.entryOf pt a with
  | none => rfl
  | some e =>
    rw [Option.bind_some, Option.filter_some]
    cases huser : e.user with
    | true => simp [allowed, huser]
    | false => simp [allowed, huser]

theorem userStore_eq (mm : Mm) (pt : Nat) (a : Addr) (v : Byte) : mm.userStore pt a v =
    ((mm.entryOf pt a).filter (allowed .user true)).map fun e => mm.setByte e.pbaseAddr (a.toNat % pageSize) v := by
  unfold Mm.userStore
  cases mm.entryOf pt a with
  | none => rfl
  | some e =>
    rw [Option.bind_some, Option.filter_some]
    cases huser : e.user with
    | true => cases hrw : e.rw with
      | true => simp [allowed, huser, hrw]
      | false => simp [allowed, huser, hrw]
    | false => simp [allowed, huser]

theorem entryOf_eq_some {pt : Nat} (h : mm.entryOf pt a = some e)
    : a.toNat / pageSize < totalPages ∧ mm.pagusrTable (pt + a.toNat / pageSize) = e ∧ e.present = true := by
  unfold Mm.entryOf at h
  dsimp only at h
  split at h
  next hpage =>
    split at h
    next hpresent =>
      cases h
      exact ⟨hpage, rfl, hpresent⟩
    next => cases h
  next => cases h

theorem not_holdsTable_of_user (h : mm.Confined) {write : Bool}
    (he : e ∈ (mm.entryOf (Mm.getPT c) a).filter (allowed .user write)) : ¬l.HoldsTable e.pbaseAddr := by
  obtain ⟨hentry, hallowed⟩ := Option.mem_filter_iff.mp he
  obtain ⟨hpage, rfl, hpresent⟩ := entryOf_eq_some hentry
  exact l.not_holdsTable (h _ (Layout.entry_index hpage c) hpresent (Bool.and_eq_true_iff.mp hallowed).1)

end Confined

section FrameMap

variable {l : Layout} {s : Paged} {mm mm' : Mm} {c d : DirIx} {f : Nat}

theorem physMem_allocFrame_congr (h : mm'.physMem = mm.physMem)
    : (mm'.allocFrame.2).physMem = (mm.allocFrame.2).physMem := by
  unfold Mm.allocFrame
  rw [Mm.allocFrame_go_congr h]
  split
  . unfold Mm.setPhysMem
    rw [h]
  . exact h

theorem physMem_freeFrame_congr (h : mm'.physMem = mm.physMem) (f : Nat)
    : (mm'.freeFrame f).physMem = (mm.freeFrame f).physMem := by
  unfold Mm.freeFrame
  split
  . unfold Mm.setPhysMem
    rw [h]
  . exact h

theorem frames_allocFrame : (mm.allocFrame.2).frames = mm.frames := by
  unfold Mm.allocFrame
  split
  . rfl
  . rfl

theorem frames_freeFrame (f : Nat) : (mm.freeFrame f).frames = mm.frames := by
  unfold Mm.freeFrame
  split
  . rfl
  . rfl

theorem Represents.withPhysMem (h : Represents l s mm c) (htable : mm'.pagusrTable = mm.pagusrTable)
    (hframes : mm'.frames = mm.frames) : Represents l { s with physMem := mm'.physMem } mm' c where
  physMem := rfl
  pg := h.pg
  cr3 := h.cr3
  table i hi := by rw [htable]; exact h.table i hi
  directory := h.directory
  rest := h.rest
  frames f hf o ho := by rw [hframes]; exact h.frames f hf o ho

theorem Represents.allocFrame (h : Represents l s mm c)
    : s.allocFrame.1 = mm.allocFrame.1 ∧ Represents l s.allocFrame.2 mm.allocFrame.2 c := by
  have htable : mm.allocFrame.2.pagusrTable = mm.pagusrTable := Mm.pagusrTable_allocFrame
  have hphysMem : s.frameMap.allocFrame.2.physMem = mm.allocFrame.2.physMem := physMem_allocFrame_congr h.physMem
  have hrep := h.withPhysMem htable frames_allocFrame
  rw [← hphysMem] at hrep
  exact ⟨Mm.allocFrame_congr h.physMem, hrep⟩

theorem Represents.freeFrame (h : Represents l s mm c) (f : Nat)
    : Represents l (s.freeFrame f) (mm.freeFrame f) c := by
  have hphysMem : (s.frameMap.freeFrame f).physMem = (mm.freeFrame f).physMem := physMem_freeFrame_congr h.physMem f
  have hrep := h.withPhysMem (Mm.pagusrTable_freeFrame f) (frames_freeFrame f)
  rw [← hphysMem] at hrep
  exact hrep

theorem pbaseOfFrame_bounds (mm : Mm)
    : numPagKernel ≤ Mm.pbaseOfFrame mm.allocFrame.1 ∧ Mm.pbaseOfFrame mm.allocFrame.1 < 2 ^ 20 := by
  cases hcase : mm.allocFrame.1 with
  | none => decide
  | some f =>
    obtain ⟨-, hle, hlt, -⟩ := Mm.allocFrame_eq_some (Prod.ext hcase rfl)
    unfold totalPages at hlt
    exact ⟨hle, by unfold Mm.pbaseOfFrame; rw [Option.getD_some]; omega⟩

end FrameMap

section Operations

variable {l : Layout} {s : Paged} {mm : Mm} {c d : DirIx} {f i page : Nat} {e : PageTableEntry}

theorem Confined.setEntry (h : mm.Confined) (he : e.present → e.user → numPagKernel ≤ e.pbaseAddr) (i : Nat)
    : (mm.setEntry i e).Confined := by
  intro j hj
  unfold Mm.setEntry
  dsimp only
  split
  . exact he
  . exact h j hj

theorem Confined.of_table {mm' : Mm} (h : mm.Confined) (htable : mm'.pagusrTable = mm.pagusrTable)
    : mm'.Confined := by
  unfold Mm.Confined
  rw [htable]
  exact h

/-- The state of the processor and the memory of `mm.c` belong together. -/
def Matches (l : Layout) (s : Paged) (mm : Mm) (c : DirIx) : Prop :=
  Represents l s mm c ∧ mm.Confined

theorem Matches.setSsPag (h : Matches l s mm c) (hpage : page < totalPages) (hle : numPagKernel ≤ f)
    (hlt : f < 2 ^ 20) (d : DirIx)
    : Matches l (s.setSsPag (l.pagusrTable + pageSize * d) page f) (mm.setSsPag (Mm.getPT d) page f) c := by
  have hset := h.1.setEntry (d := d) hpage (setPresent (setRw (setUser (setPbaseAddr f 0))))
  rw [decode_ssEntry hlt] at hset
  exact ⟨hset, Confined.setEntry h.2 (fun _ _ => hle) _⟩

theorem Matches.delSsPag (h : Matches l s mm c) (hpage : page < totalPages) (d : DirIx)
    : Matches l (s.delSsPag (l.pagusrTable + pageSize * d) page) (mm.delSsPag (Mm.getPT d) page) c := by
  have hset := h.1.setEntry (d := d) hpage 0
  rw [decode_zero] at hset
  exact ⟨hset, Confined.setEntry h.2 (fun hpresent => absurd hpresent (by decide)) _⟩

theorem Matches.allocFrame (h : Matches l s mm c)
    : s.allocFrame.1 = mm.allocFrame.1 ∧ Matches l s.allocFrame.2 mm.allocFrame.2 c := by
  obtain ⟨hframe, hrep⟩ := h.1.allocFrame
  exact ⟨hframe, hrep, Confined.of_table h.2 Mm.pagusrTable_allocFrame⟩

theorem Represents.decode_entry (h : Represents l s mm c) (hpage : page < totalPages) (d : DirIx)
    : decode (Words.read s.mem (s.getPT l d + 4 * page)) = mm.pagusrTable (Mm.getPT d + page) := by
  rw [getPT_eq h d, l.entry_address]
  exact h.table _ (Layout.entry_index hpage d)

theorem Represents.getFrame (h : Represents l s mm c) (hpage : page < totalPages) (d : DirIx)
    : s.getFrame (s.getPT l d) page = mm.getFrame (Mm.getPT d) page :=
  congrArg PageTableEntry.pbaseAddr (h.decode_entry hpage d)

theorem Represents.setCr3 (h : Represents l s mm c) (d : DirIx) : Represents l (s.setCr3 l d) mm d :=
  { h with cr3 := rfl }

theorem Matches.freeFrame (h : Matches l s mm c) (f : Nat) : Matches l (s.freeFrame f) (mm.freeFrame f) c :=
  ⟨h.1.freeFrame f, Confined.of_table h.2 (Mm.pagusrTable_freeFrame f)⟩

theorem Matches.store_rel {mode : Mode} {a : Addr} (h : Matches l s mm c) (v : Byte)
    (hout : ∀ e ∈ (mm.entryOf (Mm.getPT c) a).filter (allowed mode true), ¬l.HoldsTable e.pbaseAddr)
    : Option.Rel (fun s' mm' => Matches l s' mm' c) (s.store mode a v)
        (((mm.entryOf (Mm.getPT c) a).filter (allowed mode true)).map fun e =>
          mm.setByte e.pbaseAddr (a.toNat % pageSize) v) := by
  refine Simulation.rel_and_right (Paged.store_rel h.1 a v hout) fun mm' hmm' => ?_
  obtain ⟨e, -, rfl⟩ := Option.map_eq_some_iff.mp hmm'
  exact Confined.of_table h.2 rfl

theorem Matches.inheritEntry (h : Matches l s mm c) (hpage : page < totalPages) (new parent : DirIx)
    : Matches l (s.inheritEntry (l.pagusrTable + pageSize * new) (s.getPT l parent) page)
        (mm.setEntry (Mm.getPT new + page) (mm.pagusrTable (Mm.getPT parent + page))) c := by
  have hset := h.1.setEntry (d := new) hpage (Words.read s.mem (s.getPT l parent + 4 * page))
  rw [h.1.decode_entry hpage parent] at hset
  exact ⟨hset, Confined.setEntry h.2 (h.2 _ (Layout.entry_index hpage parent)) _⟩

theorem Matches.userPage (h : Matches l s mm c) (hpage : page < totalPages) (d : DirIx) (rw : Bool)
    {g : Nat → BitVec 32} (hg : ∀ f < 2 ^ 20, decode (g f) =
      { present := true, rw := rw, user := true, pbaseAddr := f })
    : Matches l (s.allocFrame.2.setEntry (l.pagusrTable + pageSize * d) page (g (Mm.pbaseOfFrame s.allocFrame.1)))
        (mm.allocFrame.2.setEntry (Mm.getPT d + page)
          { present := true, rw := rw, user := true, pbaseAddr := Mm.pbaseOfFrame mm.allocFrame.1 }) c := by
  obtain ⟨hframe, halloc⟩ := h.allocFrame
  obtain ⟨hle, hlt⟩ := pbaseOfFrame_bounds mm
  have hset := halloc.1.setEntry (d := d) hpage (g (Mm.pbaseOfFrame s.allocFrame.1))
  rw [hframe, hg _ hlt] at hset
  rw [hframe]
  exact ⟨hset, Confined.setEntry halloc.2 (fun _ _ => hle) _⟩

theorem Matches.setUserPages (h : Matches l s mm c) (d : DirIx)
    : Matches l (s.setUserPages (l.pagusrTable + pageSize * d)) (mm.setUserPages (Mm.getPT d)) c := by
  unfold Paged.setUserPages Mm.setUserPages
  dsimp only
  apply List.foldl_rel (r := fun s mm => Matches l s mm c)
  . apply List.foldl_rel (r := fun s mm => Matches l s mm c) h
    intro pag hpag s mm hs
    have hpage := List.mem_range.mp hpag
    refine hs.userPage ?_ d false fun f => decode_codeEntry
    unfold pagLogInitCode totalPages numPagCode at *
    omega
  . intro pag hpag s mm hs
    have hpage := List.mem_range.mp hpag
    refine hs.userPage ?_ d true fun f => decode_ssEntry
    unfold pagLogInitData pagLogInitCode totalPages numPagCode numPagData at *
    omega

end Operations

section Init

variable {l : Layout} {s : Paged} {m : Words.Memory} {b base i j n pt : Nat}

def kernelTable (i : Nat) : PageTableEntry :=
  if 1 ≤ i ∧ i < numPagKernel then { present := true, rw := true, user := false, pbaseAddr := i } else .zero

theorem decode_initTable (hi : i < totalPages)
    : decode (Words.read (initTable pt m) (pt + 4 * i)) = kernelTable i := by
  unfold initTable kernelTable
  rw [Words.read_modifyAll List.nodup_range', Words.read_modifyAll List.nodup_range, if_pos (List.mem_range.mpr hi)]
  have hmem : i ∈ List.range' 1 (numPagKernel - 1) ↔ 1 ≤ i ∧ i < numPagKernel := by
    rw [List.mem_range'_1]
    unfold numPagKernel
    omega
  simp only [hmem]
  split
  next hkernel =>
    apply decode_kernelEntry
    unfold numPagKernel at hkernel
    omega
  next => exact decode_zero

theorem initTable_outside (h : b < pt ∨ pt + pageSize ≤ b) : initTable pt m b = m b := by
  unfold initTable
  rw [Words.modifyAll_outside, Words.modifyAll_outside]
  . intro i hi
    have hlt := List.mem_range.mp hi
    unfold pageSize totalPages at *
    omega
  . intro i hi
    have hlt := (List.mem_range'_1.mp hi).2
    unfold pageSize numPagKernel at *
    omega

theorem initTables_spec (base n : Nat) (m : Words.Memory)
    : (∀ j < n, ∀ i < totalPages, decode (Words.read ((List.range n).foldl (fun m j =>
        initTable (base + pageSize * j) m) m) (base + pageSize * j + 4 * i)) = kernelTable i) ∧
      ∀ b, b < base ∨ base + pageSize * n ≤ b →
        (List.range n).foldl (fun m j => initTable (base + pageSize * j) m) m b = m b := by
  induction n with
  | zero => exact ⟨nofun, fun b _ => rfl⟩
  | succ n ih =>
    obtain ⟨htables, hout⟩ := ih
    rw [List.range_succ, List.foldl_append, List.foldl_cons, List.foldl_nil]
    generalize (List.range n).foldl (fun m j => initTable (base + pageSize * j) m) m = m₁ at *
    constructor
    . intro j hj i hi
      by_cases hjn : j = n
      . subst hjn
        exact decode_initTable hi
      . rw [← htables j (by omega) i hi]
        refine congrArg decode (Words.read_congr fun k hk => initTable_outside ?_)
        unfold pageSize totalPages at *
        omega
    . intro b hb
      have hprevious : b < base ∨ base + pageSize * n ≤ b := by
        unfold pageSize at *
        omega
      rw [← hout b hprevious]
      apply initTable_outside
      unfold pageSize at *
      omega

theorem initDirs_spec (base n : Nat) (g : Nat → BitVec 32) (m : Words.Memory)
    : (∀ j < n, Words.read ((List.range n).foldl (fun m i =>
        Words.modify base (totalPages * i) (fun _ => g i) m) m) (base + pageSize * j) = g j) ∧
      ∀ b, (∀ j < n, b < base + pageSize * j ∨ base + pageSize * j + 4 ≤ b) →
        (List.range n).foldl (fun m i => Words.modify base (totalPages * i) (fun _ => g i) m) m b = m b := by
  induction n with
  | zero => exact ⟨nofun, fun b _ => rfl⟩
  | succ n ih =>
    obtain ⟨hdirs, hout⟩ := ih
    have hword : ∀ j, base + pageSize * j = base + 4 * (totalPages * j) := by
      intro j
      unfold pageSize totalPages
      omega
    rw [List.range_succ, List.foldl_append, List.foldl_cons, List.foldl_nil]
    generalize (List.range n).foldl (fun m i => Words.modify base (totalPages * i) (fun _ => g i) m) m = m₁ at *
    constructor
    . intro j hj
      rw [hword, Words.read_modify]
      by_cases hjn : j = n
      . rw [if_pos (by rw [hjn]), hjn]
      . rw [if_neg (by unfold totalPages; omega), ← hword]
        exact hdirs j (by omega)
    . intro b hb
      rw [← hout b fun j hj => hb j (by omega)]
      apply Words.modify_outside
      rw [← hword]
      exact hb n (by omega)

def dirEntry (l : Layout) (i : Nat) : BitVec 32 :=
  setPresent (setRw (setUser (setPbaseAddr ((l.pagusrTable + pageSize * i) / pageSize) 0)))

theorem decode_dirEntry (l : Layout) (d : DirIx) : decode (dirEntry l d) =
    { present := true, rw := true, user := true, pbaseAddr := l.pagusrTable / pageSize + d } := by
  have hd := d.isLt
  have hkernel := l.pagusrTable_kernel
  have hbase : (l.pagusrTable + pageSize * d) / pageSize = l.pagusrTable / pageSize + d :=
    Nat.add_mul_div_left _ _ (by decide)
  unfold dirEntry
  rw [hbase]
  apply decode_ssEntry
  unfold nrTasks pageSize numPagKernel at *
  omega

theorem mem_initMm (l : Layout) (d : DirIx) (s : Paged)
    : ∃ m, (∀ j < nrTasks, ∀ i < totalPages,
          decode (Words.read m (l.pagusrTable + pageSize * j + 4 * i)) = kernelTable i) ∧
        (∀ b, b < l.pagusrTable ∨ l.pagusrTable + pageSize * nrTasks ≤ b → m b = s.mem b) ∧
        (∀ j < nrTasks, Words.read (s.initMm l d).mem (l.dirPages + pageSize * j) = dirEntry l j) ∧
        ∀ b, (∀ j < nrTasks, b < l.dirPages + pageSize * j ∨ l.dirPages + pageSize * j + 4 ≤ b) →
          (s.initMm l d).mem b = m b := by
  obtain ⟨htables, htablesOut⟩ := initTables_spec l.pagusrTable nrTasks s.mem
  obtain ⟨hdirs, hdirsOut⟩ := initDirs_spec l.dirPages nrTasks (dirEntry l)
    ((List.range nrTasks).foldl (fun m j => initTable (l.pagusrTable + pageSize * j) m) s.mem)
  have hmem : (s.initMm l d).mem = (List.range nrTasks).foldl (fun m i =>
      Words.modify l.dirPages (totalPages * i) (fun _ => dirEntry l i) m)
        ((List.range nrTasks).foldl (fun m j => initTable (l.pagusrTable + pageSize * j) m) s.mem) := by
    unfold initMm setCr3 initDirPages initFrames initTablePages dirEntry
    dsimp only
  rw [hmem]
  exact ⟨_, htables, htablesOut, hdirs, hdirsOut⟩

theorem represents_initMm (h : s.EmptyDirectories l) (d : DirIx)
    : Represents l (s.initMm l d) s.frameMemory.initTablePages.initFrames d := by
  obtain ⟨m, htables, htablesOut, hdirs, hdirsOut⟩ := mem_initMm l d s
  have hapart := l.apart
  refine ⟨rfl, rfl, rfl, ?_, ?_, ?_, ?_⟩
  . intro i hi
    have haddr : l.pagusrTable + 4 * i = l.pagusrTable + pageSize * (i / totalPages) + 4 * (i % totalPages) := by
      unfold pageSize totalPages
      omega
    have htask : i / totalPages < nrTasks := Nat.div_lt_of_lt_mul (by rw [Nat.mul_comm]; exact hi)
    have hentry := htables _ htask _ (Nat.mod_lt i (by decide))
    rw [← haddr] at hentry
    have hkept : Words.read (s.initMm l d).mem (l.pagusrTable + 4 * i) = Words.read m (l.pagusrTable + 4 * i) := by
      refine Words.read_congr fun k hk => hdirsOut _ fun j hj => ?_
      unfold nrTasks totalPages pageSize at *
      omega
    rw [hkept, hentry]
    exact (if_pos hi).symm
  . intro d'
    have hword : Words.read (s.initMm l d).mem (getDIR l d') = dirEntry l d' := hdirs d' d'.isLt
    rw [hword]
    exact decode_dirEntry l d'
  . intro d' j hj hlt
    have hd' := d'.isLt
    have hkept : Words.read (s.initMm l d).mem (getDIR l d' + 4 * j) = Words.read s.mem (getDIR l d' + 4 * j) := by
      refine Words.read_congr fun k hk => (hdirsOut _ fun i hi => ?_).trans (htablesOut _ ?_)
      . unfold getDIR nrTasks totalPages pageSize at *
        omega
      . unfold getDIR nrTasks totalPages pageSize at *
        omega
    rw [hkept, h d' j hlt]
    rfl
  . intro f hf o ho
    refine (hdirsOut _ fun i hi => ?_).trans (htablesOut _ ?_)
    . exact l.outside hf ho (l.entryAt_directory (d := ⟨i, hi⟩) (j := 0) (by decide))
    . have htable := l.pagusrTable_aligned
      unfold Layout.HoldsTable at hf
      unfold nrTasks pageSize at *
      omega

theorem confined_initTablePages (mm : Mm) : mm.initTablePages.initFrames.Confined := by
  intro i hi hpresent huser
  have hentry : mm.initTablePages.initFrames.pagusrTable i = kernelTable (i % totalPages) := if_pos hi
  rw [hentry] at huser
  unfold kernelTable at huser
  split at huser
  . cases huser
  . cases huser

end Init

section Run

variable {l : Layout} {s : Paged} {mm : Mm} {c d : DirIx} {x : Paged × List Nat} {y : (Mm × DirIx) × List Nat}

def Alike (l : Layout) (x : Paged × List Nat) (y : (Mm × DirIx) × List Nat) : Prop :=
  x.2 = y.2 ∧ Matches l x.1 y.1.1 y.1.2

theorem Matches.alike (h : Matches l s mm c) (seen : List Nat) : Alike l (s, seen) ((mm, c), seen) :=
  ⟨rfl, h⟩

theorem step_rel (op : PagingOp) (h : Alike l x y) (hok : op.Allowed l y)
    : Option.Rel (Alike l) (op.onPaged l x) (op.onMm y) := by
  obtain ⟨s, seen⟩ := x
  obtain ⟨⟨mm, c⟩, seen'⟩ := y
  obtain ⟨hseen, h⟩ := h
  change Matches l s mm c at h
  cases hseen
  cases op with
  | allocFrame =>
    obtain ⟨hframe, halloc⟩ := h.allocFrame
    exact .some ⟨congrArg (fun f => seen ++ [Mm.pbaseOfFrame f]) hframe, halloc⟩
  | freeFrame frame =>
    have hfree := h.freeFrame frame
    exact .some (hfree.alike seen)
  | setSsPag d page frame =>
    obtain ⟨hpage, hle, hlt⟩ := hok
    have hset := h.setSsPag hpage hle hlt d
    rw [← getPT_eq h.1 d] at hset
    exact .some (hset.alike seen)
  | delSsPag d page =>
    have hdel := h.delSsPag hok d
    rw [← getPT_eq h.1 d] at hdel
    exact .some (hdel.alike seen)
  | getFrame d page =>
    exact .some ⟨congrArg (fun f => seen ++ [f]) (h.1.getFrame hok d), h⟩
  | setUserPages d =>
    have hset := h.setUserPages d
    rw [← getPT_eq h.1 d] at hset
    exact .some (hset.alike seen)
  | inheritEntry new parent page =>
    have hset := h.inheritEntry hok new parent
    rw [← getPT_eq h.1 new] at hset
    exact .some (hset.alike seen)
  | setCr3 d =>
    have hcr3 : Matches l (s.setCr3 l d) mm d := ⟨h.1.setCr3 d, h.2⟩
    exact .some (hcr3.alike seen)
  | load mode a =>
    cases mode with
    | user =>
      have hout : ∀ e ∈ (mm.entryOf (Mm.getPT c) a).filter (allowed .user false), ¬l.HoldsTable e.pbaseAddr :=
        fun e he => not_holdsTable_of_user h.2 he
      have hload := load_rel h.1 a hout
      rw [← userLoad_eq] at hload
      exact Simulation.rel_map hload fun r v hr => ⟨congrArg (fun v => seen ++ [v.toNat]) hr.1, hr.2, h.2⟩
    | kernel =>
      have hout : ∀ e ∈ (mm.entryOf (Mm.getPT c) a).filter (allowed .kernel false), ¬l.HoldsTable e.pbaseAddr := by
        rw [filter_kernel]
        exact hok
      have hload := load_rel h.1 a hout
      rw [filter_kernel] at hload
      exact Simulation.rel_map hload fun r v hr => ⟨congrArg (fun v => seen ++ [v.toNat]) hr.1, hr.2, h.2⟩
  | store mode a v =>
    cases mode with
    | user =>
      have hout : ∀ e ∈ (mm.entryOf (Mm.getPT c) a).filter (allowed .user true), ¬l.HoldsTable e.pbaseAddr :=
        fun e he => not_holdsTable_of_user h.2 he
      have hstore := h.store_rel v hout
      rw [← userStore_eq] at hstore
      exact Simulation.rel_map hstore fun s mm hs => hs.alike seen
    | kernel =>
      have hout : ∀ e ∈ (mm.entryOf (Mm.getPT c) a).filter (allowed .kernel true), ¬l.HoldsTable e.pbaseAddr := by
        rw [filter_kernel]
        exact hok
      have hstore := h.store_rel v hout
      rw [filter_kernel] at hstore
      exact Simulation.rel_map hstore fun s mm hs => hs.alike seen

theorem alike_initMm (h : s.EmptyDirectories l) (d : DirIx)
    : Alike l (s.initMm l d, []) ((s.frameMemory.initTablePages.initFrames, d), []) :=
  ⟨rfl, represents_initMm h d, confined_initTablePages s.frameMemory⟩

/--
From `init_mm` on, and after any operations, the tables in physical memory are those of `mm.c`: the processor finds the
same frames and bytes, and has the same page faults, and what user mode may use leads to none of the kernel's frames.
-/
theorem paging_refines (h : s.EmptyDirectories l) (d : DirIx) (ops : List PagingOp)
    (hok : Run.Allowed PagingOp.onMm (PagingOp.Allowed l) ops
      ((s.frameMemory.initTablePages.initFrames, d), []))
    : Option.Rel (fun x y => x.2 = y.2 ∧ Represents l x.1 y.1.1 y.1.2 ∧ y.1.1.Confined)
        (Run.run (PagingOp.onPaged l) ops (s.initMm l d, []))
        (Run.run PagingOp.onMm ops ((s.frameMemory.initTablePages.initFrames, d), [])) :=
  Simulation.rel_run (fun op _ _ => step_rel op) (alike_initMm h d) hok

def firstLayout : Layout where
  dirPages := 0x50000
  pagusrTable := 0x60000
  dirPages_aligned := by decide
  pagusrTable_aligned := by decide
  dirPages_kernel := by decide
  pagusrTable_kernel := by decide
  apart := by decide

def zeroPaged : Paged where
  physMem _ := .freeFrame
  mem _ := 0
  cr3 := 0
  pg := false

theorem emptyDirectories_zero : zeroPaged.EmptyDirectories firstLayout := by
  intro d j hj
  have hzero : 0#8 ++ 0#8 ++ 0#8 ++ 0#8 = 0#32 := by
    decide
  exact hzero

def firstOps : List PagingOp :=
  [.setUserPages 1, .setCr3 1, .store .user 0x108000 7, .load .user 0x108000, .inheritEntry 2 1 0x100,
    .getFrame 2 0x100]

theorem allowed_firstOps : Run.Allowed PagingOp.onMm (PagingOp.Allowed firstLayout) firstOps
    ((zeroPaged.frameMemory.initTablePages.initFrames, 0), []) :=
  have hpage : 0x100 < totalPages := by decide
  ⟨trivial, fun _ _ => ⟨trivial, fun _ _ => ⟨trivial, fun _ _ => ⟨trivial, fun _ _ =>
    ⟨hpage, fun _ _ => ⟨hpage, fun _ _ => trivial⟩⟩⟩⟩⟩⟩

theorem paging_refines_first
    : ∃ x, Run.run (PagingOp.onPaged firstLayout) firstOps (zeroPaged.initMm firstLayout 0, []) = some x ∧
        x.2 = [7, 256] := by
  have hrel := paging_refines emptyDirectories_zero 0 firstOps allowed_firstOps
  have hseen : (Run.run PagingOp.onMm firstOps ((zeroPaged.frameMemory.initTablePages.initFrames, 0), [])).map
      (fun y => y.2) = some [7, 256] := by
    decide +kernel
  obtain ⟨y, hy, hlist⟩ := Option.map_eq_some_iff.mp hseen
  rw [hy] at hrel
  revert hrel
  cases Run.run (PagingOp.onPaged firstLayout) firstOps (zeroPaged.initMm firstLayout 0, []) with
  | none =>
    intro hrel
    cases hrel
  | some x =>
    intro hrel
    cases hrel with
    | some hrel => exact ⟨x, rfl, hrel.1.trans hlist⟩

end Run

end Paged

end Zeos
