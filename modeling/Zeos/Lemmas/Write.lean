import Zeos.Lib.Simulation
import Zeos.Lemmas.Utils
import Zeos.Spec.Write

/-!
What `sys_write` lets a process see: the memory of the process, unless the buffer starts in the pages of
the kernel.
-/

namespace Zeos

namespace UserTable

variable {m m' : Space} {a b : Addr}

theorem translate_kernel (h : UserTable m) (ha : KernelAddr a)
    : m.translate a = some (a.toNat / pageSize, a.toNat % pageSize) := by
  obtain ⟨hlo, hhi⟩ := ha
  have hentry := h.kernel (a.toNat / pageSize) (by unfold pageSize at *; omega)
    (by unfold pageSize numPagKernel at *; omega)
  have hpage : a.toNat / pageSize < totalPages := by
    unfold pageSize numPagKernel totalPages at *
    omega
  simp [Space.translate, Mm.entryOf, hpage, hentry]

theorem entryOf_user (h : UserTable m) (ha : UserAddr a) {e : PageTableEntry}
    (he : m.mm.entryOf m.pt a = some e) : e.user ∧ numPagKernel ≤ e.pbaseAddr := by
  unfold Mm.entryOf at he
  dsimp only at he
  split at he
  next hpage =>
    split at he
    next hpresent =>
      cases he
      refine h.user (a.toNat / pageSize) ?_ hpage hpresent
      unfold UserAddr at ha
      unfold pagLogInitCode pageSize at *
      omega
    next => cases he
  next => cases he

theorem translate_user (h : UserTable m) (ha : UserAddr a) {l : Nat × Nat}
    (hl : m.translate a = some l) : numPagKernel ≤ l.1 := by
  obtain ⟨e, he, rfl⟩ := Option.map_eq_some_iff.mp hl
  exact (h.entryOf_user ha he).2

theorem translate_ne (h : UserTable m) (ha : UserAddr a) (hb : KernelAddr b)
    : m.translate a ≠ m.translate b := by
  rw [h.translate_kernel hb]
  intro heq
  have := h.translate_user ha heq
  obtain ⟨hlo, hhi⟩ := hb
  unfold pageSize numPagKernel at *
  simp only at this
  omega

theorem translate_kernel_inj (h : UserTable m) (ha : KernelAddr a) (hb : KernelAddr b)
    (heq : m.translate a = m.translate b) : a = b := by
  rw [h.translate_kernel ha, h.translate_kernel hb] at heq
  have := Prod.ext_iff.mp (Option.some.inj heq)
  apply BitVec.eq_of_toNat_eq
  unfold pageSize at *
  simp only at this
  omega

theorem translate_null (h : UserTable m) (ha : a.toNat < pageSize) : m.translate a = none := by
  have hpage : a.toNat / pageSize = 0 := by
    unfold pageSize at *
    omega
  simp [Space.translate, Mm.entryOf, hpage, h.null]

theorem userLoad_eq (h : UserTable m) (ha : UserAddr a) {v : Byte} (hload : ByteMem.load m a = some v)
    : m.mm.userLoad m.pt a = some v := by
  obtain ⟨e, he, hv⟩ := Option.map_eq_some_iff.mp hload
  have huser := (h.entryOf_user ha he).1
  simpa [Mm.userLoad, he, huser] using hv

theorem isSome_translate (h : UserTable m) (hlo : pageSize ≤ a.toNat)
    (hhi : a.toNat < numPagKernel * pageSize + 4) : (m.translate a).isSome := by
  by_cases hkernel : a.toNat < numPagKernel * pageSize
  . rw [h.translate_kernel ⟨hlo, hkernel⟩]
    rfl
  . have hpage : a.toNat / pageSize = pagLogInitCode := by
      unfold pageSize numPagKernel pagLogInitCode at *
      omega
    have hlt : pagLogInitCode < totalPages := by decide
    simp [Space.translate, Mm.entryOf, hpage, hlt, h.code]

theorem of_eq (h : UserTable m) (hpt : m'.pt = m.pt) (htable : m'.mm.pagusrTable = m.mm.pagusrTable)
    : UserTable m' := by
  obtain ⟨hnull, hkernel, hcode, huser⟩ := h
  constructor <;> rwa [hpt, htable]

end UserTable

section TwoRuns

/-- Both memories translate alike, and hold the same bytes at these addresses. -/
def AgreeOn (A : Addr → Prop) (m m' : Space) : Prop :=
  m'.translate = m.translate ∧ ∀ a, A a → ByteMem.load m' a = ByteMem.load m a

variable {A B : Addr → Prop} {m m' : Space} {p q : Addr}

theorem AgreeOn.mono (hAB : ∀ a, B a → A a) (h : AgreeOn A m m') : AgreeOn B m m' :=
  ⟨h.1, fun a ha => h.2 a (hAB a ha)⟩

theorem SameUserMemory.agreeOn (h : SameUserMemory m m') (htable : UserTable m)
    : AgreeOn UserAddr m m' := by
  have hentry : ∀ a, m'.mm.entryOf m'.pt a = m.mm.entryOf m.pt a := by
    intro a
    unfold Mm.entryOf
    dsimp only
    split
    next hpage => rw [h.pt, h.table _ hpage]
    next => rfl
  have htr : m'.translate = m.translate := by
    funext a
    simp only [Space.translate, hentry]
  refine ⟨htr, ?_⟩
  intro a ha
  change (m'.mm.entryOf m'.pt a).map _ = (m.mm.entryOf m.pt a).map _
  rw [hentry]
  cases he : m.mm.entryOf m.pt a with
  | none => rfl
  | some e =>
    have huser := (htable.entryOf_user ha he).1
    unfold Mm.entryOf at he
    dsimp only at he
    split at he
    next hpage =>
      split at he
      next hpresent =>
        cases he
        simp only [Option.map_some, h.bytes _ hpage hpresent huser]
      next => cases he
    next => cases he

theorem AgreeOn.store (h : AgreeOn A m m') (q : Addr) (v : Byte)
    : Option.Rel (AgreeOn fun a => A a ∨ a = q) (ByteMem.store m q v) (ByteMem.store m' q v) := by
  cases hq : m.translate q with
  | none =>
    have hm : ByteMem.store m q v = none := by rw [Space.store_eq, hq]; rfl
    have hm' : ByteMem.store m' q v = none := by rw [Space.store_eq, h.1, hq]; rfl
    rw [hm, hm']
    exact .none
  | some l =>
    obtain ⟨m₁, hm⟩ : ∃ m₁, ByteMem.store m q v = some m₁ := by
      rw [Space.store_eq, hq]
      exact ⟨_, rfl⟩
    obtain ⟨m₁', hm'⟩ : ∃ m₁', ByteMem.store m' q v = some m₁' := by
      rw [Space.store_eq, h.1, hq]
      exact ⟨_, rfl⟩
    rw [hm, hm']
    refine .some ⟨?_, ?_⟩
    . rw [Space.translate_of_store hm, Space.translate_of_store hm', h.1]
    . intro a ha
      rw [Space.load_of_store hm, Space.load_of_store hm', h.1]
      split
      next => rfl
      next hne =>
        rcases ha with ha | rfl
        . exact h.2 a ha
        . exact absurd rfl hne

theorem UserAddr.add (hp : UserAddr p) (hmapped : (m.translate p).isSome) {i : Nat} (hi : i ≤ 4)
    : UserAddr (p + BitVec.ofNat 32 i) := by
  have := Space.page_lt_of_translate hmapped
  unfold UserAddr at *
  unfold totalPages pageSize pagLogInitCode at *
  simp only [BitVec.toNat_add, BitVec.toNat_ofNat]
  omega

theorem AgreeOn.copyBytes {n : Nat} {size : Int} (hA : ∀ a, UserAddr a → A a) (hp : UserAddr p)
    (h : AgreeOn A m m')
    : Option.Rel (AgreeOn fun a => A a ∨ ∃ i : Nat, i < n ∧ i < size ∧ a = q + BitVec.ofNat 32 i)
        (copyBytes n p q size m) (copyBytes n p q size m') := by
  induction n generalizing p q size m m' A with
  | zero =>
    refine .some (h.mono ?_)
    rintro a (ha | ⟨i, hi, -⟩)
    . exact ha
    . omega
  | succ n ih =>
    unfold Zeos.copyBytes
    split
    next hsize =>
      unfold copyByte
      rw [h.2 p (hA p hp)]
      cases hload : ByteMem.load m p with
      | none => exact .none
      | some v =>
        have hmapped : (m.translate p).isSome := by
          rw [← Space.isSome_load, hload]
          rfl
        refine Simulation.rel_bind (h.store q v) ?_
        intro m₁ m₁' hagree
        have hnext : UserAddr (p + 1) := hp.add hmapped (i := 1) (by omega)
        refine Simulation.rel_mono ?_ (ih (fun a ha => .inl (hA a ha)) hnext hagree)
        intro m₂ m₂' h₂
        refine h₂.mono ?_
        rintro a (ha | ⟨i, hi, hisize, rfl⟩)
        . exact .inl (.inl ha)
        . cases i with
          | zero => exact .inl (.inr (add_ofNat_zero q))
          | succ i => exact .inr ⟨i, by omega, by omega, ofNat_succ q i⟩
    next hsize =>
      refine .some (h.mono ?_)
      rintro a (ha | ⟨i, hi, hisize, -⟩)
      . exact ha
      . omega

theorem AgreeOn.sysWriteConsole {buff : Addr} {size : Nat} (h : AgreeOn A m m')
    (hA : ∀ i < size, A (buff + BitVec.ofNat 32 i))
    : sysWriteConsole m' buff size = sysWriteConsole m buff size := by
  unfold Zeos.sysWriteConsole
  apply List.filterMap_congr
  intro i hi
  exact h.2 _ (hA i (List.mem_range.mp hi))

end TwoRuns

section Chunks

variable {m m' m₁ : Space} {buff buffer : Addr} {k fuel : Nat} {size ret : Int} {console : List Byte}

theorem copyFromUser_eq (hk : k ≤ 4)
    : copyFromUser buffer buff k m = copyBytes k buffer buff k m := by
  unfold copyFromUser
  rw [copyData_of_le_four (by omega)]
  rfl

theorem chunk_agree (buff : Addr) (hk : k ≤ 4) (hbuffer : UserAddr buffer) (h : AgreeOn UserAddr m m')
    : Option.Rel (fun m₁ m₁' => AgreeOn UserAddr m₁ m₁' ∧
          sysWriteConsole m₁' buff k = sysWriteConsole m₁ buff k)
        (copyFromUser buffer buff k m) (copyFromUser buffer buff k m') := by
  rw [copyFromUser_eq hk, copyFromUser_eq hk]
  refine Simulation.rel_mono ?_ (h.copyBytes (fun _ ha => ha) hbuffer)
  intro m₁ m₁' h₁
  refine ⟨h₁.mono (fun a ha => .inl ha), h₁.sysWriteConsole ?_⟩
  intro i hi
  exact .inr ⟨i, hi, by omega, rfl⟩

theorem userAddr_of_chunk (hbuffer : UserAddr buffer)
    (h : copyFromUser buffer buff tamWrite m = some m₁) : UserAddr (buffer + 4) := by
  have h4 : copyFromUser buffer buff tamWrite m = copyBytes 4 buffer buff 4 m :=
    copyFromUser_eq (k := 4) (by omega)
  rw [h4] at h
  have hmapped := ((copyBytes_translate h).2 0 (by omega) (by omega)).1
  rw [add_ofNat_zero] at hmapped
  exact hbuffer.add hmapped (i := 4) (by omega)

theorem writeChunks_agree (hbuffer : UserAddr buffer) (hsize : 0 ≤ size) (h : AgreeOn UserAddr m m')
    : writeChunks buff fuel buffer size ret console m' =
        writeChunks buff fuel buffer size ret console m := by
  induction fuel generalizing buffer size ret console m m' with
  | zero => rfl
  | succ fuel ih =>
    unfold writeChunks
    split
    next hfour =>
      have hround : Option.Rel _ (copyFromUser buffer buff tamWrite m)
          (copyFromUser buffer buff tamWrite m') := chunk_agree buff (k := 4) (by omega) hbuffer h
      have hnext : ∀ m₁, copyFromUser buffer buff tamWrite m = some m₁ → UserAddr (buffer + 4) :=
        fun _ => userAddr_of_chunk hbuffer
      generalize copyFromUser buffer buff tamWrite m = x at hround hnext
      generalize copyFromUser buffer buff tamWrite m' = x' at hround
      cases hround with
      | none => rfl
      | some h₁ =>
        dsimp only
        rw [h₁.2]
        refine ih (hnext _ rfl) ?_ h₁.1
        unfold tamWrite at *
        omega
    next hfour =>
      obtain ⟨k, rfl⟩ := Int.eq_ofNat_of_zero_le hsize
      have hk : k ≤ 4 := by
        unfold tamWrite at hfour
        omega
      have hround := chunk_agree buff hk hbuffer h
      generalize copyFromUser buffer buff k m = x at hround
      generalize copyFromUser buffer buff k m' = x' at hround
      cases hround with
      | none => rfl
      | some h₁ =>
        dsimp only
        rw [Int.toNat_natCast, h₁.2]

theorem StackBuff.kernelAddr (h : StackBuff buff) {i : Nat} (hi : i < 4)
    : KernelAddr (buff + BitVec.ofNat 32 i) := by
  unfold StackBuff KernelAddr at *
  unfold pageSize numPagKernel at *
  simp only [BitVec.toNat_add, BitVec.toNat_ofNat]
  omega

theorem chunk_user (htable : UserTable m) (hstack : StackBuff buff) (hk : k ≤ 4)
    (hbuffer : ∀ i < k, UserAddr (buffer + BitVec.ofNat 32 i))
    (h : copyFromUser buffer buff k m = some m₁)
    : UserTable m₁ ∧ (∀ a, UserAddr a → ByteMem.load m₁ a = ByteMem.load m a) ∧
        ∀ i < k, ByteMem.load m₁ (buff + BitVec.ofNat 32 i) =
          ByteMem.load m (buffer + BitVec.ofNat 32 i) := by
  rw [copyFromUser_eq hk] at h
  refine ⟨?_, ?_, ?_⟩
  . refine copyBytes_invariant ?_ h htable
    intro m m' q v hstore htable
    exact htable.of_eq (Space.pt_of_store hstore).1 (Space.pt_of_store hstore).2
  . intro a ha
    refine copyBytes_frame h ?_
    intro i hi
    exact htable.translate_ne ha (hstack.kernelAddr (by omega))
  . intro i hi
    refine copyBytes_load h ?_ ?_ hi
    . intro i hi j hj
      exact htable.translate_ne (hbuffer i hi) (hstack.kernelAddr (by omega))
    . intro i hi j hj heq
      refine (add_ofNat_inj (a := buff) (by omega) (by omega)).mp ?_
      exact htable.translate_kernel_inj (hstack.kernelAddr (by omega)) (hstack.kernelAddr (by omega))
        heq

def ReadFrom (m : Space) (buffer : Addr) (out : List Byte) : Prop :=
  ∀ (i : Nat) (b : Byte), out[i]? = some b →
    UserAddr (buffer + BitVec.ofNat 32 i) ∧
      ByteMem.load m (buffer + BitVec.ofNat 32 i) = some b

theorem chunk_readFrom (htable : UserTable m) (hstack : StackBuff buff) (hk : k ≤ 4)
    (hbuffer : UserAddr buffer) (h : copyFromUser buffer buff k m = some m₁)
    : UserTable m₁ ∧ (∀ a, UserAddr a → ByteMem.load m₁ a = ByteMem.load m a) ∧
        ReadFrom m buffer (sysWriteConsole m₁ buff k) ∧ (sysWriteConsole m₁ buff k).length = k := by
  have hmapped : ∀ i < k, (m.translate (buffer + BitVec.ofNat 32 i)).isSome := by
    intro i hi
    rw [copyFromUser_eq hk] at h
    exact ((copyBytes_translate h).2 i hi (by omega)).1
  have huser : ∀ i < k, UserAddr (buffer + BitVec.ofNat 32 i) := by
    intro i hi
    have hfirst := hmapped 0 (by omega)
    rw [add_ofNat_zero] at hfirst
    exact hbuffer.add hfirst (by omega)
  obtain ⟨htable₁, hframe, hload⟩ := chunk_user htable hstack hk huser h
  have hmap : sysWriteConsole m₁ buff k
      = (List.range k).map fun i => (ByteMem.load m (buffer + BitVec.ofNat 32 i)).getD 0 := by
    unfold sysWriteConsole
    rw [← List.filterMap_eq_map]
    apply List.filterMap_congr
    intro i hi
    have hi := List.mem_range.mp hi
    have hsome := hmapped i hi
    rw [← Space.isSome_load] at hsome
    obtain ⟨b, hb⟩ := Option.isSome_iff_exists.mp hsome
    simp [hload i hi, hb]
  refine ⟨htable₁, hframe, ?_, by rw [hmap]; simp⟩
  intro i b hb
  rw [hmap, List.getElem?_map, Option.map_eq_some_iff] at hb
  obtain ⟨j, hj, rfl⟩ := hb
  obtain ⟨hi, rfl⟩ := List.getElem?_eq_some_iff.mp hj
  simp only [List.length_range] at hi
  simp only [List.getElem_range]
  refine ⟨huser i hi, ?_⟩
  have hsome := hmapped i hi
  rw [← Space.isSome_load] at hsome
  obtain ⟨b, hb⟩ := Option.isSome_iff_exists.mp hsome
  simp [hb]

theorem ReadFrom.append {out out' : List Byte} (h : ReadFrom m buffer out) (hlen : out.length = 4)
    (hframe : ∀ a, UserAddr a → ByteMem.load m₁ a = ByteMem.load m a)
    (h' : ReadFrom m₁ (buffer + 4) out') : ReadFrom m buffer (out ++ out') := by
  intro i b hb
  by_cases hi : i < 4
  . rw [List.getElem?_append_left (by omega)] at hb
    exact h i b hb
  . rw [List.getElem?_append_right (by omega), hlen] at hb
    have haddr : buffer + 4 + BitVec.ofNat 32 (i - 4) = buffer + BitVec.ofNat 32 i := by
      have : BitVec.ofNat 32 i = 4 + BitVec.ofNat 32 (i - 4) := by
        rw [show i = 4 + (i - 4) by omega, BitVec.ofNat_add]
        simp
      rw [this, BitVec.add_assoc]
    obtain ⟨huser, hload⟩ := h' (i - 4) b hb
    rw [haddr] at huser hload
    exact ⟨huser, by rw [← hframe _ huser]; exact hload⟩

theorem writeChunks_readFrom (fuel : Nat) (ret : Int) (console : List Byte) (htable : UserTable m)
    (hstack : StackBuff buff) (hbuffer : UserAddr buffer) (hsize : 0 ≤ size)
    : ∃ out, (writeChunks buff fuel buffer size ret console m).console = console ++ out ∧
        ReadFrom m buffer out := by
  have hnil : ∀ m buffer, ReadFrom m buffer [] := by
    intro m buffer i b hb
    cases hb
  induction fuel generalizing buffer size ret console m with
  | zero => exact ⟨[], by simp [writeChunks], hnil m buffer⟩
  | succ fuel ih =>
    unfold writeChunks
    split
    next hfour =>
      split
      next => exact ⟨[], by simp, hnil m buffer⟩
      next m₁ h₁ =>
        have h₄ : copyFromUser buffer buff (4 : Nat) m = some m₁ := h₁
        obtain ⟨htable₁, hframe, hread, hlen⟩ :=
          chunk_readFrom htable hstack (k := 4) (by omega) hbuffer h₄
        have hrest : 0 ≤ size - tamWrite := by omega
        obtain ⟨out, hout, hreadout⟩ := ih (ret + tamWrite) (console ++ sysWriteConsole m₁ buff 4)
          htable₁ (userAddr_of_chunk hbuffer h₁) hrest
        refine ⟨sysWriteConsole m₁ buff 4 ++ out, ?_, hread.append hlen hframe hreadout⟩
        rw [hout, List.append_assoc]
    next hfour =>
      obtain ⟨k, rfl⟩ := Int.eq_ofNat_of_zero_le hsize
      have hk : k ≤ 4 := by
        unfold tamWrite at hfour
        omega
      split
      next => exact ⟨[], by simp, hnil m buffer⟩
      next m₁ h₁ =>
        obtain ⟨-, -, hread, -⟩ := chunk_readFrom htable hstack hk hbuffer h₁
        exact ⟨_, rfl, hread⟩

theorem writeChunks_prefix (buff : Addr) (fuel : Nat) (buffer : Addr) (size ret : Int)
    (console : List Byte) (m : Space)
    : ∃ out, (writeChunks buff fuel buffer size ret console m).console = console ++ out := by
  induction fuel generalizing buffer size ret console m with
  | zero => exact ⟨[], by simp [writeChunks]⟩
  | succ fuel ih =>
    unfold writeChunks
    split
    next =>
      split
      next => exact ⟨[], by simp⟩
      next m₁ h₁ =>
        obtain ⟨out, hout⟩ := ih (buffer + 4) (size - tamWrite) (ret + tamWrite)
          (console ++ sysWriteConsole m₁ buff 4) m₁
        exact ⟨sysWriteConsole m₁ buff 4 ++ out, by rw [hout, List.append_assoc]⟩
    next =>
      split
      next => exact ⟨[], by simp⟩
      next m₁ h₁ => exact ⟨_, rfl⟩

theorem head?_sysWriteConsole {b : Byte} (hk : 0 < k) (h : ByteMem.load m buff = some b)
    : (sysWriteConsole m buff k).head? = some b := by
  obtain ⟨k, rfl⟩ := Nat.exists_eq_add_one_of_ne_zero (by omega : k ≠ 0)
  unfold sysWriteConsole
  rw [List.range_succ_eq_map, List.filterMap_cons_some (b := b) (by rw [add_ofNat_zero]; exact h)]
  rfl

/--
A round that starts in the kernel prints a byte of the kernel.
-/
theorem chunk_kernel (htable : UserTable m) (hstack : StackBuff buff) (hk : k ≤ 4) (hpos : 0 < k)
    (hbuffer : KernelAddr buffer)
    : ∃ m₁, copyFromUser buffer buff k m = some m₁ ∧
        (sysWriteConsole m₁ buff k).head? = ByteMem.load m buffer := by
  have hmapped : ∀ i < k, (m.translate (buffer + BitVec.ofNat 32 i)).isSome ∧
      (m.translate (buff + BitVec.ofNat 32 i)).isSome := by
    intro i hi
    constructor
    . apply htable.isSome_translate
      all_goals
        unfold KernelAddr at hbuffer
        unfold numPagKernel pageSize at *
        simp only [BitVec.toNat_add, BitVec.toNat_ofNat]
        omega
    . rw [htable.translate_kernel (hstack.kernelAddr (by omega))]
      rfl
  obtain ⟨m₁, h₁⟩ := Option.isSome_iff_exists.mp (copyBytes_isSome k hmapped)
  obtain ⟨n, rfl⟩ := Nat.exists_eq_add_one_of_ne_zero (by omega : k ≠ 0)
  have hload : ByteMem.load m₁ buff = ByteMem.load m buffer := by
    refine copyBytes_load_first h₁ ?_
    intro i hi heq
    have hbuff := hstack.kernelAddr (i := 0) (by omega)
    rw [add_ofNat_zero] at hbuff
    have haddr := htable.translate_kernel_inj (hstack.kernelAddr (by omega)) hbuff heq
    have : i + 1 = 0 := by
      rw [← add_ofNat_inj (a := buff) (by omega) (by omega), haddr, add_ofNat_zero]
    omega
  have hfirst := (hmapped 0 hpos).1
  rw [add_ofNat_zero, ← Space.isSome_load] at hfirst
  obtain ⟨b, hb⟩ := Option.isSome_iff_exists.mp hfirst
  refine ⟨m₁, ?_, ?_⟩
  . rw [copyFromUser_eq hk]
    exact h₁
  . rw [head?_sysWriteConsole hpos (hload.trans hb), hb]

theorem writeChunks_kernel (fuel : Nat) (ret : Int) (htable : UserTable m)
    (hstack : StackBuff buff) (hbuffer : KernelAddr buffer) (hsize : 0 < size)
    : (writeChunks buff (fuel + 1) buffer size ret [] m).console.head? = ByteMem.load m buffer := by
  have hsome : (ByteMem.load m buffer).isSome := by
    rw [Space.isSome_load, htable.translate_kernel hbuffer]
    rfl
  unfold writeChunks
  split
  next hfour =>
    obtain ⟨m₁, h₁, hhead⟩ := chunk_kernel htable hstack (k := 4) (by omega) (by omega) hbuffer
    rw [show copyFromUser buffer buff tamWrite m = some m₁ from h₁]
    dsimp only
    obtain ⟨out, hout⟩ := writeChunks_prefix buff fuel (buffer + 4) (size - tamWrite)
      (ret + tamWrite) ([] ++ sysWriteConsole m₁ buff 4) m₁
    rw [hout, List.nil_append, List.head?_append, hhead, Option.or_of_isSome hsome]
  next hfour =>
    obtain ⟨k, rfl⟩ := Int.eq_ofNat_of_zero_le (by omega : 0 ≤ size)
    have hk : k ≤ 4 := by
      unfold tamWrite at hfour
      omega
    obtain ⟨m₁, h₁, hhead⟩ := chunk_kernel htable hstack hk (by omega) hbuffer
    rw [h₁]
    exact hhead

end Chunks

def Space.flip (m : Space) (a : Addr) : Space :=
  ((m.translate a).map fun l =>
    { m with mm := m.mm.setByte l.1 l.2 (m.mm.frames l.1 l.2 + 1) }).getD m

theorem sameUserMemory_flip {m : Space} {a : Addr} (htable : UserTable m) (ha : KernelAddr a)
    : SameUserMemory m (m.flip a) := by
  unfold Space.flip
  rw [htable.translate_kernel ha]
  refine ⟨rfl, fun _ _ => rfl, ?_⟩
  intro page hpage hpresent huser offset
  have hne : (m.mm.pagusrTable (m.pt + page)).pbaseAddr ≠ a.toNat / pageSize := by
    have hhi := ha.2
    by_cases hkernel : page < pagLogInitCode
    . rcases Nat.eq_zero_or_pos page with rfl | hpos
      . rw [Nat.add_zero, htable.null] at hpresent
        cases hpresent
      . rw [htable.kernel page hpos hkernel] at huser
        cases huser
    . have := (htable.user page (by omega) hpage hpresent).2
      unfold pageSize numPagKernel at *
      omega
  simp [Mm.setByte, hne]

theorem load_flip {m : Space} {a : Addr} (htable : UserTable m) (ha : KernelAddr a)
    : ByteMem.load (m.flip a) a ≠ ByteMem.load m a := by
  have htr := htable.translate_kernel ha
  have hflip : (m.flip a).translate a = m.translate a := by
    unfold Space.flip
    rw [htr]
    exact htr
  rw [Space.load_eq, Space.load_eq, hflip, htr]
  simp [Space.flip, htr, Mm.setByte]

theorem sysWrite_early {fd : Int} {buffer : Addr} {size : Int} (buff : Addr)
    (h : checkFd fd .escriptura ≠ 0 ∨ buffer = 0 ∨ size ≤ 0)
    : ∃ ret, ∀ m, sysWrite buff fd buffer size m = { console := [], ret := some ret } := by
  by_cases hfd : checkFd fd .escriptura ≠ 0
  . exact ⟨_, fun m => by rw [sysWrite, if_pos hfd]⟩
  . by_cases hnull : buffer = 0
    . exact ⟨_, fun m => by rw [sysWrite, if_neg hfd, if_pos hnull]⟩
    . by_cases hneg : size < 0
      . exact ⟨_, fun m => by rw [sysWrite, if_neg hfd, if_neg hnull, if_pos hneg]⟩
      . have hzero : size = 0 := by
          rcases h with h | h | h
          . exact absurd h hfd
          . exact absurd h hnull
          . omega
        exact ⟨_, fun m => by rw [sysWrite, if_neg hfd, if_neg hnull, if_neg hneg, if_pos hzero]⟩

theorem sysWrite_eq_writeChunks {fd : Int} {buffer : Addr} {size : Int} (buff : Addr) (m : Space)
    (hfd : checkFd fd .escriptura = 0) (hnull : buffer ≠ 0) (hsize : 0 < size)
    : sysWrite buff fd buffer size m = writeChunks buff (size.toNat + 1) buffer size 0 [] m := by
  rw [sysWrite, if_neg (not_not.mpr hfd), if_neg hnull, if_neg (by omega), if_neg (by omega)]

theorem writeChunks_fault {m : Space} {buff buffer : Addr} {fuel : Nat} {size ret : Int}
    {console : List Byte} (h : m.translate buffer = none) (hsize : 0 < size)
    : writeChunks buff (fuel + 1) buffer size ret console m = { console := console, ret := none } := by
  have hfault : ∀ n : Int, 0 < n → n ≤ 4 → copyFromUser buffer buff n m = none := by
    intro n hpos hn
    obtain ⟨k, hk⟩ := Nat.exists_eq_add_one_of_ne_zero (by omega : n.toNat ≠ 0)
    rw [copyFromUser, copyData_of_le_four hn, hk, copyBytes, if_pos hpos, copyByte, Space.load_eq, h]
    rfl
  unfold writeChunks
  split
  next hfour => rw [hfault tamWrite (by decide) (by decide)]
  next hfour => rw [hfault size hsize (by unfold tamWrite at hfour; omega)]

theorem confined_of_early {c : Caller} {fd : Int} {buffer : Addr} {size : Int}
    (h : checkFd fd .escriptura ≠ 0 ∨ buffer = 0 ∨ size ≤ 0) : Confined c fd buffer size := by
  obtain ⟨ret, hret⟩ := sysWrite_early c.buff h
  refine ⟨?_, ?_⟩
  . intro m' _
    rw [hret, hret]
  . intro i b hb
    rw [hret] at hb
    cases hb

theorem confined_of_user {c : Caller} {fd : Int} {buffer : Addr} {size : Int}
    (hfd : checkFd fd .escriptura = 0) (hsize : 0 < size) (hbuffer : UserAddr buffer)
    : Confined c fd buffer size := by
  have hnull : buffer ≠ 0 := by
    rintro rfl
    unfold UserAddr pagLogInitCode pageSize at hbuffer
    simp at hbuffer
  refine ⟨?_, ?_⟩
  . intro m' hm'
    rw [sysWrite_eq_writeChunks _ _ hfd hnull hsize, sysWrite_eq_writeChunks _ _ hfd hnull hsize]
    exact writeChunks_agree hbuffer (by omega) (hm'.agreeOn c.table)
  . intro i b hb
    rw [sysWrite_eq_writeChunks _ _ hfd hnull hsize] at hb
    obtain ⟨out, hout, hread⟩ := writeChunks_readFrom (size.toNat + 1) 0 [] c.table c.stack
      hbuffer (by omega : 0 ≤ size)
    rw [hout, List.nil_append] at hb
    obtain ⟨huser, hload⟩ := hread i b hb
    exact c.table.userLoad_eq huser hload

theorem confined_of_null {c : Caller} {fd : Int} {buffer : Addr} {size : Int}
    (hfd : checkFd fd .escriptura = 0) (hsize : 0 < size) (hnull : buffer ≠ 0)
    (hbuffer : buffer.toNat < pageSize) : Confined c fd buffer size := by
  have hfault : ∀ m', m'.translate = c.space.translate →
      sysWrite c.buff fd buffer size m' = { console := [], ret := none } := by
    intro m' htr
    rw [sysWrite_eq_writeChunks _ _ hfd hnull hsize]
    refine writeChunks_fault ?_ hsize
    rw [htr]
    exact c.table.translate_null hbuffer
  refine ⟨?_, ?_⟩
  . intro m' hm'
    rw [hfault m' (hm'.agreeOn c.table).1, hfault c.space rfl]
  . intro i b hb
    rw [hfault c.space rfl] at hb
    cases hb

theorem not_confined_of_kernel {c : Caller} {fd : Int} {buffer : Addr} {size : Int}
    (hfd : checkFd fd .escriptura = 0) (hsize : 0 < size) (hbuffer : KernelAddr buffer)
    : ¬Confined c fd buffer size := by
  have hnull : buffer ≠ 0 := by
    rintro rfl
    unfold KernelAddr pageSize at hbuffer
    simp at hbuffer
  rintro ⟨hruns, -⟩
  have hsame := sameUserMemory_flip c.table hbuffer
  have htable : UserTable (c.space.flip buffer) := by
    have hflip : (c.space.flip buffer).mm.pagusrTable = c.space.mm.pagusrTable := by
      unfold Space.flip
      rw [c.table.translate_kernel hbuffer]
      rfl
    exact c.table.of_eq hsame.pt hflip
  have hrun := hruns _ hsame
  rw [sysWrite_eq_writeChunks _ _ hfd hnull hsize, sysWrite_eq_writeChunks _ _ hfd hnull hsize] at hrun
  refine load_flip c.table hbuffer ?_
  rw [← writeChunks_kernel size.toNat 0 htable c.stack hbuffer hsize,
    ← writeChunks_kernel size.toNat 0 c.table c.stack hbuffer hsize, hrun]

/--
`sys_write` is confined to the memory of its caller exactly when it does not get as far as copying from a
page of the kernel.
-/
theorem sysWrite_confined_iff (c : Caller) (fd : Int) (buffer : Addr) (size : Int)
    : Confined c fd buffer size ↔
        checkFd fd .escriptura ≠ 0 ∨ size ≤ 0 ∨ ¬KernelAddr buffer := by
  constructor
  . intro h
    by_contra hnot
    simp only [not_or, not_not] at hnot
    exact not_confined_of_kernel hnot.1 (by omega) hnot.2.2 h
  . intro h
    by_cases hearly : checkFd fd .escriptura ≠ 0 ∨ buffer = 0 ∨ size ≤ 0
    . exact confined_of_early hearly
    . simp only [not_or, not_not] at hearly
      obtain ⟨hfd, hnull, hsize⟩ := hearly
      have hkernel : ¬KernelAddr buffer := by
        rcases h with h | h | h
        . exact absurd hfd h
        . omega
        . exact h
      by_cases hpage : buffer.toNat < pageSize
      . exact confined_of_null hfd (by omega) hnull hpage
      . refine confined_of_user hfd (by omega) ?_
        unfold KernelAddr at hkernel
        unfold UserAddr
        unfold pagLogInitCode numPagKernel pageSize at *
        omega

def firstSpace : Space :=
  { mm := (Sys.zero fun _ _ => 0).initMm.mm.setUserPages (Mm.getPT 1), pt := Mm.getPT 1 }

theorem firstSpace_table : UserTable firstSpace := by
  constructor
  . decide +kernel
  . have : ∀ page < numPagKernel, 1 ≤ page →
        firstSpace.mm.pagusrTable (firstSpace.pt + page) =
          { present := true, rw := true, user := false, pbaseAddr := page } := by
      decide +kernel
    intro page hlo hhi
    exact this page hhi hlo
  . decide +kernel
  . have : ∀ page < totalPages, pagLogInitCode ≤ page →
        (firstSpace.mm.pagusrTable (firstSpace.pt + page)).present →
          (firstSpace.mm.pagusrTable (firstSpace.pt + page)).user ∧
            numPagKernel ≤ (firstSpace.mm.pagusrTable (firstSpace.pt + page)).pbaseAddr := by
      decide +kernel
    intro page hlo hhi
    exact this page hhi hlo

def firstCaller : Caller :=
  { space := firstSpace, buff := 0x20F00, table := firstSpace_table, stack := by decide }

/--
The first process can print a byte of the kernel: `write(1, 0x10000, 1)`.
-/
theorem firstCaller_not_confined : ¬Confined firstCaller 1 0x10000 1 := by
  rintro ⟨h, -⟩
  have hrun := h _ (sameUserMemory_flip (a := 0x10000) firstCaller.table (by decide))
  exact absurd hrun (by decide +kernel)

end Zeos
