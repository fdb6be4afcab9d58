import Zeos.Spec.Load
import Zeos.Lemmas.BootPages
import Zeos.Lemmas.Bootsect
import Zeos.Lemmas.Build
import Zeos.Lemmas.Copy

/-!
From the image to user mode: the loader brings the image to memory as it was built, and `main` finds the user
program behind the system and moves it to its pages.
-/

namespace Zeos

section Pages

def bootSpace (frames : Nat → Nat → Byte) : Space :=
  { mm := (Model.boot frames).mm, pt := Mm.getPT 1 }

variable (frames : Nat → Nat → Byte) {a b : Addr}

theorem entryOf_bootSpace (hpage : a.toNat / pageSize < totalPages)
    : (bootSpace frames).mm.entryOf (bootSpace frames).pt a =
        if (bootEntry (a.toNat / pageSize)).present then some (bootEntry (a.toNat / pageSize)) else none := by
  unfold Mm.entryOf bootSpace
  dsimp only
  rw [if_pos hpage, pagusrTable_boot frames hpage]

def InKernel (a : Addr) : Prop :=
  1 ≤ a.toNat / pageSize ∧ a.toNat / pageSize < numPagKernel

def InUser (a : Addr) : Prop :=
  numPagKernel ≤ a.toNat / pageSize ∧ a.toNat / pageSize < pagLogInitHeap

theorem entryOf_kernel (h : InKernel a) : (bootSpace frames).mm.entryOf (bootSpace frames).pt a =
    some { present := true, rw := true, user := false, pbaseAddr := a.toNat / pageSize } := by
  obtain ⟨hlo, hhi⟩ := h
  have hlt : numPagKernel < totalPages := by decide
  have hentry : bootEntry (a.toNat / pageSize) =
      { present := true, rw := true, user := false, pbaseAddr := a.toNat / pageSize } := by
    unfold bootEntry
    rw [if_neg (by omega), if_pos hhi]
  rw [entryOf_bootSpace frames (by omega), hentry, if_pos rfl]

theorem entryOf_user (h : InUser a) : ∃ rw, (bootSpace frames).mm.entryOf (bootSpace frames).pt a =
    some { present := true, rw := rw, user := true,
           pbaseAddr := numPagKernel + 2 * (a.toNat / pageSize - numPagKernel) } := by
  obtain ⟨hlo, hhi⟩ := h
  have hlt : pagLogInitHeap < totalPages := by decide
  have hpos : 0 < numPagKernel := by decide
  have hentry : bootEntry (a.toNat / pageSize) =
      { present := true, rw := decide (pagLogInitData ≤ a.toNat / pageSize), user := true,
        pbaseAddr := numPagKernel + 2 * (a.toNat / pageSize - numPagKernel) } := by
    unfold bootEntry
    rw [if_neg (by omega), if_neg (by omega), if_pos hhi]
  have hpage : a.toNat / pageSize < totalPages := by omega
  exact ⟨_, by rw [entryOf_bootSpace frames hpage, hentry, if_pos rfl]⟩

theorem inKernel_or_inUser (h : ((bootSpace frames).translate a).isSome) : InKernel a ∨ InUser a := by
  have hlt := Space.page_lt_of_translate h
  have hpage : a.toNat / pageSize < totalPages := by
    unfold pageSize at *
    omega
  unfold Space.translate at h
  rw [Option.isSome_map, entryOf_bootSpace frames hpage] at h
  unfold InKernel InUser
  by_contra hneither
  generalize a.toNat / pageSize = page at *
  have hnone : (bootEntry page).present = false := by
    unfold bootEntry
    by_cases h0 : page = 0
    . rw [if_pos h0]
      rfl
    . rw [if_neg h0, if_neg (by omega), if_neg (by omega)]
      rfl
  rw [hnone] at h
  simp at h

theorem translate_inj (h : ((bootSpace frames).translate a).isSome)
    (heq : (bootSpace frames).translate a = (bootSpace frames).translate b) : a = b := by
  have hb : ((bootSpace frames).translate b).isSome := by
    rw [← heq]
    exact h
  have hplace : ∀ c, ((bootSpace frames).translate c).isSome → ∃ f,
      (bootSpace frames).translate c = some (f, c.toNat % pageSize) ∧
        (f = c.toNat / pageSize ∧ f < numPagKernel ∨
          f = numPagKernel + 2 * (c.toNat / pageSize - numPagKernel) ∧ numPagKernel ≤ c.toNat / pageSize) := by
    intro c hc
    unfold Space.translate
    rcases inKernel_or_inUser frames hc with hkernel | huser
    . rw [entryOf_kernel frames hkernel]
      exact ⟨_, rfl, .inl ⟨rfl, hkernel.2⟩⟩
    . obtain ⟨rw, hentry⟩ := entryOf_user frames huser
      rw [hentry]
      exact ⟨_, rfl, .inr ⟨rfl, huser.1⟩⟩
  obtain ⟨f, hf, hcase⟩ := hplace a h
  obtain ⟨g, hg, hcase'⟩ := hplace b hb
  rw [hf, hg] at heq
  obtain ⟨hframe, hoffset⟩ := Prod.ext_iff.mp (Option.some.inj heq)
  dsimp only at hframe hoffset
  apply BitVec.eq_of_toNat_eq
  unfold pageSize at *
  omega

end Pages

def bootMemory (frames : Nat → Nat → Byte) : Unaliased (bootSpace frames) where
  toSpace := bootSpace frames
  pt_eq := rfl
  table_eq := rfl
  inj := fun _ _ => translate_inj frames

section Loads

variable {mem : Bootsect.Memory} {a : Addr}

theorem inKernel_of_toNat (hlo : 0x1000 ≤ a.toNat) (hhi : a.toNat < 0x100000) : InKernel a := by
  unfold InKernel numPagKernel pageSize
  omega

theorem inUser_of_toNat (hlo : 0x100000 ≤ a.toNat) (hhi : a.toNat < 0x11C000) : InUser a := by
  unfold InUser numPagKernel pagLogInitHeap pagLogInitData pagLogInitCode numPagCode numPagData pageSize
  omega

theorem load_kernel (h : InKernel a)
    : ByteMem.load (bootMemory (framesOf mem)) a = some (mem a.toNat) := by
  have hframes : (bootMemory (framesOf mem)).mm.frames = framesOf mem := frames_boot (framesOf mem)
  rw [Unaliased.load_eq, Unaliased.entryOf_eq, entryOf_kernel _ h, Option.map_some, hframes]
  unfold framesOf
  rw [Nat.div_add_mod]

theorem isSome_load_user {frames : Nat → Nat → Byte} (h : InUser a) (m : Unaliased (bootSpace frames))
    : (ByteMem.load m a).isSome := by
  obtain ⟨rw, hentry⟩ := entryOf_user frames h
  rw [Unaliased.load_eq, Unaliased.entryOf_eq, hentry]
  rfl

theorem userLoad_eq {frames : Nat → Nat → Byte} (h : InUser a) (m : Unaliased (bootSpace frames))
    : m.mm.userLoad m.pt a = ByteMem.load m a := by
  obtain ⟨rw, hentry⟩ := entryOf_user frames h
  rw [Unaliased.load_eq]
  unfold Mm.userLoad
  rw [m.entryOf_eq, hentry]
  rfl

end Loads

section Numbers

open Build Bootsect

variable {image : List Byte} {disk : Disk}

theorem toNat_append_byte {w : Nat} (x : BitVec w) (b : Byte) : (x ++ b).toNat = b.toNat + 256 * x.toNat := by
  rw [BitVec.toNat_append, ← Nat.shiftLeft_add_eq_or_of_lt b.isLt, Nat.shiftLeft_eq]
  omega

theorem OnDisk.slice (h : OnDisk image disk) {pos n : Nat} (hlen : pos + n ≤ image.length)
    : File.slice pos n image = (List.range n).map fun i => disk (pos + i) := by
  apply File.slice_eq_map
  intro i hi
  have hget := List.getElem?_eq_getElem (show pos + i < image.length by omega)
  rw [h (pos + i) _ hget, hget]

theorem OnDisk.toNat_read (h : OnDisk image disk) {mem : Memory} {a pos : Nat}
    (hlen : pos + 2 ≤ image.length) (hmem : ∀ i < 2, mem (a + i) = disk (pos + i))
    : (Halves.read mem a).toNat = numberAt image pos 2 := by
  have h0 : mem a = disk (pos + 0) := hmem 0 (by omega)
  unfold numberAt
  rw [h.slice hlen, Halves.toNat_read, hmem 1 (by omega), h0]
  rfl

theorem OnDisk.loadDWord (h : OnDisk image disk) {σ : Type} [ByteMem σ] {m : σ} {p : Addr} {pos : Nat}
    (hlen : pos + 4 ≤ image.length)
    (hload : ∀ i < 4, ByteMem.load m (p + BitVec.ofNat 32 i) = some (disk (pos + i)))
    : loadDWord p m = some (BitVec.ofNat 32 (numberAt image pos 4)) := by
  have h0 := hload 0 (by omega)
  have h1 := hload 1 (by omega)
  have h2 := hload 2 (by omega)
  have h3 := hload 3 (by omega)
  rw [add_ofNat_zero] at h0
  have hvalue : (disk (pos + 3) ++ disk (pos + 2) ++ disk (pos + 1) ++ disk (pos + 0)).toNat =
      numberAt image pos 4 := by
    unfold numberAt
    rw [h.slice hlen, toNat_append_byte, toNat_append_byte, toNat_append_byte]
    rfl
  unfold Zeos.loadDWord
  change (ByteMem.load m p).bind (fun b0 => (ByteMem.load m (p + BitVec.ofNat 32 1)).bind fun b1 =>
    (ByteMem.load m (p + BitVec.ofNat 32 2)).bind fun b2 =>
      (ByteMem.load m (p + BitVec.ofNat 32 3)).bind fun b3 => some (b3 ++ b2 ++ b1 ++ b0)) = _
  rw [h0, Option.bind_some, h1, Option.bind_some, h2, Option.bind_some, h3, Option.bind_some, ← hvalue,
    BitVec.ofNat_toNat, BitVec.setWidth_eq]

end Numbers

section Words

variable {σ : Type} [ByteMem σ] [LawfulByteMem σ] {m : σ} {q : Addr} {v : BitVec 32}

omit [LawfulByteMem σ] in
theorem loadDWord_congr {m' : σ}
    (h : ∀ i < 4, ByteMem.load m' (q + BitVec.ofNat 32 i) = ByteMem.load m (q + BitVec.ofNat 32 i))
    : loadDWord q m' = loadDWord q m := by
  have h0 := h 0 (by omega)
  have h1 : ByteMem.load m' (q + 1) = _ := h 1 (by omega)
  have h2 : ByteMem.load m' (q + 2) = _ := h 2 (by omega)
  have h3 : ByteMem.load m' (q + 3) = _ := h 3 (by omega)
  rw [add_ofNat_zero] at h0
  unfold loadDWord
  rw [h0, h1, h2, h3]
  rfl

theorem append_extract (v : BitVec 32)
    : v.extractLsb' 24 8 ++ v.extractLsb' 16 8 ++ v.extractLsb' 8 8 ++ v.extractLsb' 0 8 = v := by
  have hlt := v.isLt
  apply BitVec.eq_of_toNat_eq
  simp only [toNat_append_byte, BitVec.extractLsb'_toNat, Nat.shiftRight_eq_div_pow]
  omega

theorem storeDWord_spec (h : Backed q 4 m) (v : BitVec 32)
    : ∃ m', storeDWord q v m = some m' ∧ loadDWord q m' = some v ∧
        ∀ a, ¬InRange q 4 a → ByteMem.load m' a = ByteMem.load m a := by
  obtain ⟨m₀, h₀, hb₀⟩ := h.exists_store (i := 0) (by omega) (v.extractLsb' 0 8)
  obtain ⟨m₁, h₁, hb₁⟩ := hb₀.exists_store (i := 1) (by omega) (v.extractLsb' 8 8)
  obtain ⟨m₂, h₂, hb₂⟩ := hb₁.exists_store (i := 2) (by omega) (v.extractLsb' 16 8)
  obtain ⟨m₃, h₃, hb₃⟩ := hb₂.exists_store (i := 3) (by omega) (v.extractLsb' 24 8)
  rw [add_ofNat_zero] at h₀
  have hload : ∀ a, ByteMem.load m₃ a =
      if a = q + BitVec.ofNat 32 3 then some (v.extractLsb' 24 8)
      else if a = q + BitVec.ofNat 32 2 then some (v.extractLsb' 16 8)
      else if a = q + BitVec.ofNat 32 1 then some (v.extractLsb' 8 8)
      else if a = q then some (v.extractLsb' 0 8) else ByteMem.load m a := by
    intro a
    rw [LawfulByteMem.load_of_store h₃, LawfulByteMem.load_of_store h₂, LawfulByteMem.load_of_store h₁,
      LawfulByteMem.load_of_store h₀]
  have hne : ∀ i j, i < 4 → j < 4 → i ≠ j → q + BitVec.ofNat 32 i ≠ q + BitVec.ofNat 32 j := by
    intro i j hi hj hij
    rw [Ne, add_ofNat_inj (by omega) (by omega)]
    exact hij
  have hne' : ∀ j, j < 4 → 0 ≠ j → q ≠ q + BitVec.ofNat 32 j := by
    intro j hj hij heq
    exact hne 0 j (by omega) hj hij (by rw [add_ofNat_zero]; exact heq)
  refine ⟨m₃, ?_, ?_, ?_⟩
  . change (ByteMem.store m q _).bind (fun m => (ByteMem.store m (q + BitVec.ofNat 32 1) _).bind fun m =>
      (ByteMem.store m (q + BitVec.ofNat 32 2) _).bind fun m => ByteMem.store m (q + BitVec.ofNat 32 3) _) = _
    rw [h₀, Option.bind_some, h₁, Option.bind_some, h₂, Option.bind_some, h₃]
  . change (ByteMem.load m₃ q).bind (fun b0 => (ByteMem.load m₃ (q + BitVec.ofNat 32 1)).bind fun b1 =>
      (ByteMem.load m₃ (q + BitVec.ofNat 32 2)).bind fun b2 =>
        (ByteMem.load m₃ (q + BitVec.ofNat 32 3)).bind fun b3 => some (b3 ++ b2 ++ b1 ++ b0)) = _
    rw [hload q, if_neg (hne' 3 (by omega) (by omega)), if_neg (hne' 2 (by omega) (by omega)),
      if_neg (hne' 1 (by omega) (by omega)), if_pos rfl, Option.bind_some,
      hload (q + BitVec.ofNat 32 1), if_neg (hne 1 3 (by omega) (by omega) (by omega)),
      if_neg (hne 1 2 (by omega) (by omega) (by omega)), if_pos rfl, Option.bind_some,
      hload (q + BitVec.ofNat 32 2), if_neg (hne 2 3 (by omega) (by omega) (by omega)), if_pos rfl,
      Option.bind_some, hload (q + BitVec.ofNat 32 3), if_pos rfl, Option.bind_some, append_extract]
  . intro a ha
    have hout : ∀ i < 4, a ≠ q + BitVec.ofNat 32 i := by
      rintro i hi rfl
      exact ha (inRange_add q hi)
    have h0 := hout 0 (by omega)
    rw [add_ofNat_zero] at h0
    rw [hload a, if_neg (hout 3 (by omega)), if_neg (hout 2 (by omega)), if_neg (hout 1 (by omega)), if_neg h0]

end Words

section Main

variable {frames : Nat → Nat → Byte} {sysSize usrSize : Nat}

theorem backed_user {b : Addr} {n : Nat} (hlo : 0x100000 ≤ b.toNat) (hhi : b.toNat + n ≤ 0x11C000)
    (m : Unaliased (bootSpace frames)) : Backed b n m := by
  intro i hi
  apply isSome_load_user
  apply inUser_of_toNat <;> bv_omega

theorem backed_kernel {mem : Bootsect.Memory} {b : Addr} {n : Nat} (hlo : 0x1000 ≤ b.toNat)
    (hhi : b.toNat + n ≤ 0x100000) : Backed b n (bootMemory (framesOf mem)) := by
  intro i hi
  have hkernel : InKernel (b + BitVec.ofNat 32 i) := by
    apply inKernel_of_toNat <;> bv_omega
  rw [load_kernel hkernel]
  rfl

theorem moveUser_spec {mem : Bootsect.Memory}
    (hsys : loadDWord kernelStart (bootMemory (framesOf mem)) = some (BitVec.ofNat 32 sysSize))
    (husr : loadDWord pUsrSize (bootMemory (framesOf mem)) = some (BitVec.ofNat 32 usrSize))
    (htotal : sysSize + usrSize ≤ 0x7FFF0) (hroom : usrSize ≤ userRoom)
    : ∃ m, moveUser (bootMemory (framesOf mem)) = some m ∧
        Copies (kernelStart + BitVec.ofNat 32 sysSize) phUserStart usrSize (bootMemory (framesOf mem)) m := by
  have hint : (BitVec.ofNat 32 usrSize).toInt = usrSize := by
    have hnat : (BitVec.ofNat 32 usrSize).toNat = usrSize := by
      rw [BitVec.toNat_ofNat]
      omega
    rw [BitVec.toInt_eq_toNat_of_lt (by omega), hnat]
  have hstart : (kernelStart + BitVec.ofNat 32 sysSize).toNat = 0x10000 + sysSize := by
    unfold kernelStart
    bv_omega
  have hdest : phUserStart.toNat = 0x100000 := rfl
  have hroom' : userRoom = 0x1BFF0 := rfl
  have hranges : CopyRanges (kernelStart + BitVec.ofNat 32 sysSize) phUserStart (usrSize : Int).toNat := by
    refine ⟨by omega, by omega, .inl (by omega)⟩
  have hbackedStart : Backed (kernelStart + BitVec.ofNat 32 sysSize) usrSize (bootMemory (framesOf mem)) :=
    backed_kernel (by omega) (by omega)
  have hbackedDest : Backed phUserStart usrSize (bootMemory (framesOf mem)) :=
    backed_user (by omega) (by omega) _
  obtain ⟨m, hends, hcopies⟩ := copyEnds_of_backed hranges hbackedStart hbackedDest
  refine ⟨m, ?_, hcopies⟩
  unfold moveUser
  rw [hsys, husr]
  change copyData _ _ (BitVec.ofNat 32 usrSize).toInt _ = _
  rw [hint]
  exact copyData_of_copyEnds hends

theorem goToUser_spec {mem : Bootsect.Memory} {usr : List Byte} {rdtr : BitVec 32}
    (hsys : loadDWord kernelStart (bootMemory (framesOf mem)) = some (BitVec.ofNat 32 sysSize))
    (husr : loadDWord pUsrSize (bootMemory (framesOf mem)) = some (BitVec.ofNat 32 usr.length))
    (hrdtr : loadDWord pRdtr (bootMemory (framesOf mem)) = some rdtr)
    (hprogram : ∀ i c, usr[i]? = some c → mem (0x10000 + sysSize + i) = c)
    (htotal : sysSize + usr.length ≤ 0x7FFF0) (hroom : usr.length ≤ userRoom)
    : ∃ m, goToUser (bootMemory (framesOf mem)) =
        some ({ eip := lUserStart, cs := 0x23, esp := userESP, ss := 0x2B }, m) ∧
        (∀ i c, usr[i]? = some c → m.mm.userLoad m.pt (lUserStart + BitVec.ofNat 32 i) = some c) ∧
        loadDWord (userESP + 12) m = some rdtr := by
  obtain ⟨m₁, hmove, hcopies⟩ := moveUser_spec hsys husr htotal hroom
  have hroom' : userRoom = 0x1BFF0 := rfl
  have hdest : phUserStart.toNat = 0x100000 := rfl
  have htop : (userESP + 12).toNat = 0x11BFFC := by decide
  -- The words at the begin of the system are not in the pages of the user.
  have hrdtr₁ : loadDWord pRdtr m₁ = some rdtr := by
    have hkept : ∀ i < 4, ByteMem.load m₁ (pRdtr + BitVec.ofNat 32 i) =
        ByteMem.load (bootMemory (framesOf mem)) (pRdtr + BitVec.ofNat 32 i) := by
      intro i hi
      apply hcopies.kept
      unfold InRange pRdtr kernelStart phUserStart
      bv_omega
    rw [← hrdtr]
    exact loadDWord_congr hkept
  obtain ⟨m₂, hstore, hback, hkept⟩ := storeDWord_spec (backed_user (b := userESP + 12) (n := 4) (by omega)
    (by omega) m₁) rdtr
  refine ⟨m₂, ?_, ?_, hback⟩
  . unfold goToUser returnGate
    rw [hmove, Option.bind_some, hrdtr₁]
    change (storeDWord (userESP + 12) rdtr m₁).bind _ = _
    rw [hstore]
    rfl
  . intro i c hi
    have hlt : i < usr.length := (List.getElem?_eq_some_iff.mp hi).1
    have huser : InUser (lUserStart + BitVec.ofNat 32 i) := by
      unfold lUserStart
      apply inUser_of_toNat <;> bv_omega
    have hbelow : ¬InRange (userESP + 12) 4 (lUserStart + BitVec.ofNat 32 i) := by
      unfold InRange lUserStart
      bv_omega
    have hsource : InKernel (kernelStart + BitVec.ofNat 32 sysSize + BitVec.ofNat 32 i) := by
      unfold kernelStart
      apply inKernel_of_toNat <;> bv_omega
    have haddr : (kernelStart + BitVec.ofNat 32 sysSize + BitVec.ofNat 32 i).toNat = 0x10000 + sysSize + i := by
      unfold kernelStart
      bv_omega
    have hcopied : ByteMem.load m₁ (lUserStart + BitVec.ofNat 32 i) = _ := hcopies.copied i hlt
    rw [userLoad_eq huser, hkept _ hbelow, hcopied, load_kernel hsource, haddr, hprogram i c hi]

end Main

section Boot

open Build Bootsect

variable {boot sys usr image : List Byte} {labels : Bootsect.Labels} {bios : Bios} {disk : Disk}
  {own : Nat → Prop} {l : Loader}

theorem assembled_of_image (himage : Image boot sys usr image) (hdisk : OnDisk image disk)
    (hassembled : Assembled labels (sectorOf boot)) (hboot : BootSectorLoaded disk l.mem)
    : Assembled labels fun i => l.mem (physical bootSeg 0 + i) := by
  have hlen := himage.length
  apply hassembled.congr
  intro i hi
  have hget : image[i]? = some image[i] := List.getElem?_eq_getElem (by omega)
  have hunpatched : i ∉ patched := by
    unfold patched
    simp only [List.mem_cons, List.not_mem_nil, or_false]
    omega
  rw [hboot i (by omega), hdisk i _ hget]
  rw [himage.boot i (by omega) hunpatched] at hget
  unfold sectorOf
  rw [List.getD_eq_getElem?_getD, hget, Option.getD_some]

theorem loaded_of_image (hbios : bios.Serves disk own) (himage : Image boot sys usr image)
    (hdisk : OnDisk image disk) (hassembled : Assembled labels (sectorOf boot))
    (hboot : BootSectorLoaded disk l.mem) (htotal : sys.length + usr.length ≤ 0x7FFF0)
    : ∃ l', l.main labels bios = some l' ∧
        ∀ i < sys.length + usr.length, l'.mem (loadBase + i) = disk (512 + i) := by
  have hlen := himage.length
  have hsize : (Halves.read l.mem (physical bootSeg syssize)).toNat = (sys.length + usr.length + 15) / 16 := by
    rw [← himage.imSize, ← Loader.read_segment]
    exact hdisk.toNat_read (by omega) fun i hi => hboot (500 + i) (by omega)
  obtain ⟨l', hl', hloaded⟩ := main_loads hbios (assembled_of_image himage hdisk hassembled hboot) (by omega)
  refine ⟨l', hl', ?_⟩
  intro i hi
  apply hloaded
  unfold loadedBytes
  omega

theorem programs_of_loaded (himage : Image boot sys usr image) (hdisk : OnDisk image disk) {mem' : Memory}
    (hheader : 12 ≤ sys.length)
    (hloaded : ∀ i < sys.length + usr.length, mem' (loadBase + i) = disk (512 + i))
    : KernelLoaded sys mem' ∧ ∀ i c, usr[i]? = some c → mem' (0x10000 + sys.length + i) = c := by
  have hget : ∀ i c, i < sys.length + usr.length → image[512 + i]? = some c → mem' (loadBase + i) = c := by
    intro i c hi hc
    rw [hloaded i hi]
    exact hdisk _ _ hc
  constructor
  . intro i c hle hi
    have hlt : i < sys.length := (List.getElem?_eq_some_iff.mp hi).1
    apply hget i c (by omega)
    have hsystem : (File.slice (512 + 12) (sys.length - 12) image)[i - 12]? = (sys.drop 12)[i - 12]? := by
      rw [himage.system]
    rw [File.getElem?_slice (by omega), List.getElem?_drop] at hsystem
    rw [show 512 + i = 512 + 12 + (i - 12) by omega, hsystem, show 12 + (i - 12) = i by omega, hi]
  . intro i c hi
    have hlt : i < usr.length := (List.getElem?_eq_some_iff.mp hi).1
    have huser : (File.slice (512 + sys.length) usr.length image)[i]? = usr[i]? := by
      rw [himage.user]
    rw [File.getElem?_slice (by omega)] at huser
    have haddr : 0x10000 + sys.length + i = loadBase + (sys.length + i) := by
      unfold loadBase
      omega
    rw [haddr]
    apply hget _ c (by omega)
    rw [← Nat.add_assoc, huser, hi]

theorem loadDWord_header (himage : Image boot sys usr image) (hdisk : OnDisk image disk) {mem' : Memory}
    (hheader : 12 ≤ sys.length)
    (hloaded : ∀ i < sys.length + usr.length, mem' (loadBase + i) = disk (512 + i)) {k : Nat}
    (hk : k + 4 ≤ 12)
    : loadDWord (kernelStart + BitVec.ofNat 32 k) (bootMemory (framesOf mem')) =
        some (BitVec.ofNat 32 (numberAt image (512 + k) 4)) := by
  have hlen := himage.length
  apply hdisk.loadDWord (by omega)
  intro i hi
  have haddr : (kernelStart + BitVec.ofNat 32 k + BitVec.ofNat 32 i).toNat = loadBase + (k + i) := by
    unfold kernelStart loadBase
    bv_omega
  have hkernel : InKernel (kernelStart + BitVec.ofNat 32 k + BitVec.ofNat 32 i) := by
    unfold kernelStart
    apply inKernel_of_toNat <;> bv_omega
  rw [load_kernel hkernel, haddr, hloaded _ (by omega), Nat.add_assoc]

theorem mainOf_eq (mem : Memory)
    : mainOf mem = (goToUser (bootMemory (framesOf mem))).map fun x => (x.1, x.2.toSpace) := by
  obtain ⟨s, hs⟩ := exists_boot (framesOf mem)
  have hkernel : s.toKernel = (Model.boot (framesOf mem)).toKernel := by
    have hrel := refines_boot (framesOf mem)
    rw [hs] at hrel
    cases hrel with
    | some h => exact h.kernel
  have hspace : ({ mm := s.mm, pt := Mm.getPT s.cr3 } : Space) = bootSpace (framesOf mem) := by
    rw [hkernel]
    rfl
  unfold mainOf
  rw [hs]
  change goToUser ({ mm := s.mm, pt := Mm.getPT s.cr3 } : Space) = _
  rw [hspace]
  exact (memMap_toSpace (bootSpace (framesOf mem))).goToUser (bootMemory (framesOf mem))

/--
An image that `build` has made boots: from the boot sector alone the loader brings all of it to memory, the
kernel finds itself there as it has been built, and goes to the user program as it has been built.
-/
theorem image_boots {files : Files} {bootsect system user : String} (hfile : files bootsect = .ok boot)
    (hsys : files system = .ok sys) (husr : files user = .ok usr)
    (hbuild : main files [bootsect, system, user] = .ok image) (hassembled : Assembled labels (sectorOf boot))
    (hheader : 12 ≤ sys.length) (htotal : sys.length + usr.length ≤ 0x7FFF0) (hroom : usr.length ≤ userRoom)
    (hdisk : OnDisk image disk) (hbios : bios.Serves disk own) (hboot : BootSectorLoaded disk l.mem)
    : ∃ l' x, l.main labels bios = some l' ∧ KernelLoaded sys l'.mem ∧ mainOf l'.mem = some x ∧
        UserRuns usr x := by
  have himage := image_of_main hfile hsys husr hheader (by omega) hbuild
  obtain ⟨l', hl', hloaded⟩ := loaded_of_image hbios himage hdisk hassembled hboot htotal
  obtain ⟨hkernel, hprogram⟩ := programs_of_loaded himage hdisk hheader hloaded
  have hsysSize := loadDWord_header himage hdisk hheader hloaded (k := 0) (by omega)
  have husrSize := loadDWord_header himage hdisk hheader hloaded (k := 4) (by omega)
  have hrdtr := loadDWord_header himage hdisk hheader hloaded (k := 8) (by omega)
  rw [himage.sysSize, add_ofNat_zero] at hsysSize
  rw [himage.usrSize] at husrSize
  rw [himage.rdtr] at hrdtr
  obtain ⟨m, hmain, hruns, hback⟩ := goToUser_spec hsysSize husrSize hrdtr hprogram htotal hroom
  refine ⟨l', ({ eip := lUserStart, cs := 0x23, esp := userESP, ss := 0x2B }, m.toSpace), hl', hkernel, ?_, ?_⟩
  . rw [mainOf_eq, hmain]
    rfl
  . refine ⟨rfl, hruns, ?_⟩
    have hmap := (memMap_toSpace (bootSpace (framesOf l'.mem))).loadDWord (userESP + 12) m
    exact hmap.trans hback

def loaderBoot : List Byte :=
  hdr ++ List.replicate 24 0 ++ List.replicate 0xC4 0x90 ++ List.replicate 6 0 ++ List.replicate 0x86 0x90
    ++ [18, 0] ++ List.replicate 159 0x90 ++ [0] ++ List.replicate 12 0x90 ++ [0x55, 0xaa]

def loaderFiles : Files := fun name =>
  if name = "bootsect" then .ok loaderBoot else firstFiles name

def firstImage : List Byte :=
  (main loaderFiles ["bootsect", "system.out", "user.out"]).toOption.getD []

def firstDisk : Disk :=
  fun i => firstImage.getD i 0

def firstJump : Loader where
  ax := 0
  cx := 0
  dx := 0
  bx := 0
  sp := 0x7C00
  bp := 0
  si := 0
  di := 0
  es := 0
  ip := 0x7C00
  mem := fun a => if 0x7C00 ≤ a ∧ a < 0x7E00 then firstDisk (a - 0x7C00) else 0xFF

theorem image_boots_first
    : ∃ l x, firstJump.main firstLabels (firstBios firstDisk) = some l ∧ KernelLoaded firstSystem l.mem ∧
        mainOf l.mem = some x ∧ UserRuns firstUser x := by
  have hfile : loaderFiles "bootsect" = .ok loaderBoot := rfl
  have hsys : loaderFiles "system.out" = .ok firstSystem := rfl
  have husr : loaderFiles "user.out" = .ok firstUser := rfl
  have hbuild : main loaderFiles ["bootsect", "system.out", "user.out"] = .ok firstImage := by
    have hbootFile : BootFile loaderBoot := by
      constructor <;> decide +kernel
    obtain ⟨image, himage⟩ := exists_main hfile hsys husr (by decide) hbootFile
    unfold firstImage
    rw [himage]
    rfl
  have hassembled : Assembled firstLabels (sectorOf loaderBoot) := by
    constructor <;> decide +kernel
  apply image_boots hfile hsys husr hbuild hassembled (by decide) (by decide) (by decide) _
    (firstBios_serves firstDisk)
  . intro i hi
    have haddr : physical bootSeg 0 + i = 0x7C00 + i := rfl
    unfold firstJump
    dsimp only
    rw [haddr, if_pos (by omega), Nat.add_sub_cancel_left]
  . intro i c hi
    unfold firstDisk
    rw [List.getD_eq_getElem?_getD, hi, Option.getD_some]

end Boot

end Zeos
