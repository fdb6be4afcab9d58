import Zeos.Lemmas.Bytes
import Zeos.Lemmas.Write

/-!
`sys_write` prints all of a buffer, four bytes at a time.
-/

namespace Zeos

section Fenced

variable {σ : Type} [ByteMem σ] {R W : Addr → Prop} [DecidablePred R] [DecidablePred W]
variable {m m' : σ} {a p q buff buffer : Addr} {v : Byte} {n fuel : Nat} {size : Int}
  {out : List Byte}

theorem copyBytes_fenced (hR : ∀ i < n, R (p + BitVec.ofNat 32 i))
    (hW : ∀ i < n, W (q + BitVec.ofNat 32 i))
    : copyBytes n p q size (⟨m⟩ : Fenced σ R W) = (copyBytes n p q size m).map fun m => ⟨m⟩ := by
  induction n generalizing p q size m with
  | zero => rfl
  | succ n ih =>
    have hp : R p := by simpa using hR 0 (by omega)
    have hq : W q := by simpa using hW 0 (by omega)
    unfold copyBytes copyByte
    split
    next =>
      rw [load_fenced hp]
      cases ByteMem.load m p with
      | none => rfl
      | some v =>
        rw [Option.bind_some, Option.bind_some, store_fenced hq]
        cases ByteMem.store m q v with
        | none => rfl
        | some m₁ =>
          apply ih
          . intro i hi
            rw [← ofNat_succ]
            exact hR (i + 1) (by omega)
          . intro i hi
            rw [← ofNat_succ]
            exact hW (i + 1) (by omega)
    next => rfl

theorem printAll_fenced (h : printAll (⟨m⟩ : Fenced σ R W) buffer n = some out)
    : printAll m buffer n = some out := by
  induction n generalizing buffer out with
  | zero => exact h
  | succ n ih =>
    obtain ⟨b, hb, h⟩ := Option.bind_eq_some_iff.mp h
    obtain ⟨bs, hbs, h⟩ := Option.bind_eq_some_iff.mp h
    unfold printAll
    rw [(load_of_fenced hb).2, ih hbs]
    exact h

theorem copyBytes_of_fenced {x : Fenced σ R W}
    (h : copyBytes n p q size (⟨m⟩ : Fenced σ R W) = some x)
    : copyBytes n p q size m = some x.mem := by
  induction n generalizing p q size m with
  | zero =>
    cases h
    rfl
  | succ n ih =>
    unfold copyBytes at h ⊢
    split at h
    next hsize =>
      obtain ⟨y, hy, h⟩ := Option.bind_eq_some_iff.mp h
      obtain ⟨v, hload, hstore⟩ := Option.bind_eq_some_iff.mp hy
      unfold copyByte
      rw [if_pos hsize, (load_of_fenced hload).2, Option.bind_some, (store_of_fenced hstore).2]
      exact ih h
    next hsize =>
      cases h
      rw [if_neg hsize]

theorem copyFromUser_of_fenced (hsize : size ≤ 4) {x : Fenced σ R W}
    (h : copyFromUser p q size (⟨m⟩ : Fenced σ R W) = some x)
    : copyFromUser p q size m = some x.mem := by
  unfold copyFromUser at *
  rw [copyData_of_le_four hsize] at h ⊢
  exact copyBytes_of_fenced h

theorem writeLoop_of_fenced {x : Fenced σ R W}
    (h : writeLoop buff fuel buffer size (⟨m⟩ : Fenced σ R W) = some (out, x))
    : writeLoop buff fuel buffer size m = some (out, x.mem) := by
  induction fuel generalizing buffer size m out with
  | zero => cases h
  | succ fuel ih =>
    unfold writeLoop at h ⊢
    split at h
    next hsize =>
      obtain ⟨y, hy, h⟩ := Option.bind_eq_some_iff.mp h
      obtain ⟨bs, hbs, h⟩ := Option.bind_eq_some_iff.mp h
      obtain ⟨⟨rest, z⟩, hz, h⟩ := Option.bind_eq_some_iff.mp h
      cases h
      rw [if_pos hsize, copyFromUser_of_fenced (by decide) hy]
      simp only [Option.bind_eq_bind, Option.bind_some]
      rw [printAll_fenced hbs, Option.bind_some, ih hz]
      rfl
    next hsize =>
      obtain ⟨y, hy, h⟩ := Option.bind_eq_some_iff.mp h
      obtain ⟨bs, hbs, h⟩ := Option.bind_eq_some_iff.mp h
      cases h
      rw [if_neg hsize, copyFromUser_of_fenced (by unfold tamWrite at hsize; omega) hy]
      simp only [Option.bind_eq_bind, Option.bind_some]
      rw [printAll_fenced hbs]
      rfl

end Fenced

section Bytes

variable {σ : Type} [ByteMem σ] {m : σ} {buffer : Addr} {n : Nat} {f : Nat → Byte}

theorem printAll_eq (h : ∀ i < n, ByteMem.load m (buffer + BitVec.ofNat 32 i) = some (f i))
    : printAll m buffer n = some ((List.range n).map f) := by
  induction n generalizing buffer f with
  | zero => rfl
  | succ n ih =>
    have hfirst := h 0 (by omega)
    rw [add_ofNat_zero] at hfirst
    have hrest : printAll m (buffer + 1) n = some ((List.range n).map fun i => f (i + 1)) := by
      apply ih
      intro i hi
      rw [← ofNat_succ]
      exact h (i + 1) (by omega)
    unfold printAll
    rw [hfirst, hrest, List.range_succ_eq_map, List.map_cons, List.map_map]
    rfl

theorem sysWriteConsole_eq {m : Space}
    (h : ∀ i < n, ByteMem.load m (buffer + BitVec.ofNat 32 i) = some (f i))
    : sysWriteConsole m buffer n = (List.range n).map f := by
  unfold sysWriteConsole
  rw [← List.filterMap_eq_map]
  apply List.filterMap_congr
  intro i hi
  exact h i (List.mem_range.mp hi)

theorem loads_of_printAll {out : List Byte} (h : printAll m buffer n = some out)
    : ∃ f, out = (List.range n).map f ∧
        ∀ i < n, ByteMem.load m (buffer + BitVec.ofNat 32 i) = some (f i) := by
  induction n generalizing buffer out with
  | zero =>
    cases h
    exact ⟨fun _ => 0, rfl, by omega⟩
  | succ n ih =>
    obtain ⟨b, hb, h⟩ := Option.bind_eq_some_iff.mp h
    obtain ⟨bs, hbs, h⟩ := Option.bind_eq_some_iff.mp h
    cases h
    obtain ⟨f, rfl, hf⟩ := ih hbs
    refine ⟨fun i => if i = 0 then b else f (i - 1), ?_, ?_⟩
    . rw [List.range_succ_eq_map, List.map_cons, List.map_map]
      rfl
    . intro i hi
      cases i with
      | zero =>
        rw [add_ofNat_zero]
        exact hb
      | succ i =>
        rw [ofNat_succ]
        exact hf i (by omega)

theorem sysWriteConsole_of_printAll {m : Space} {out : List Byte} (h : printAll m buffer n = some out)
    : sysWriteConsole m buffer n = out := by
  obtain ⟨f, rfl, hf⟩ := loads_of_printAll h
  exact sysWriteConsole_eq hf

theorem writeChunks_of_writeLoop {m m' : Space} {buff buffer : Addr} {fuel : Nat} {size ret : Int}
    {console out : List Byte} (hsize : 0 ≤ size)
    (h : writeLoop buff fuel buffer size m = some (out, m'))
    : writeChunks buff fuel buffer size ret console m =
        { console := console ++ out, ret := some (ret + size) } := by
  induction fuel generalizing buffer size ret console m out with
  | zero => cases h
  | succ fuel ih =>
    unfold writeLoop at h
    unfold writeChunks
    split at h
    next hfour =>
      obtain ⟨m₁, hcopy, h⟩ := Option.bind_eq_some_iff.mp h
      obtain ⟨bs, hbs, h⟩ := Option.bind_eq_some_iff.mp h
      obtain ⟨⟨rest, m₂⟩, hrest, h⟩ := Option.bind_eq_some_iff.mp h
      cases h
      have hnext : 0 ≤ size - tamWrite := by omega
      rw [if_pos hfour, hcopy]
      dsimp only
      rw [sysWriteConsole_of_printAll hbs, ih hnext hrest, List.append_assoc]
      congr 2
      omega
    next hfour =>
      obtain ⟨m₁, hcopy, h⟩ := Option.bind_eq_some_iff.mp h
      obtain ⟨bs, hbs, h⟩ := Option.bind_eq_some_iff.mp h
      cases h
      rw [if_neg hfour, hcopy]
      dsimp only
      rw [sysWriteConsole_of_printAll hbs]

end Bytes

section Rounds

variable {R W : Addr → Prop} [DecidablePred R] [DecidablePred W]
variable {m : Space} {buff buffer : Addr} {k n fuel : Nat} {f : Nat → Byte}

def HasBytes (m : Space) (buffer : Addr) (n : Nat) (f : Nat → Byte) : Prop :=
  ∀ i < n, UserAddr (buffer + BitVec.ofNat 32 i) ∧
    ByteMem.load m (buffer + BitVec.ofNat 32 i) = some (f i)

theorem round_fenced (htable : UserTable m) (hstack : StackBuff buff) (hk : k ≤ 4) (hkn : k ≤ n)
    (hbytes : HasBytes m buffer n f) (hR : ∀ i < n, R (buffer + BitVec.ofNat 32 i))
    (hRbuff : ∀ i < 4, R (buff + BitVec.ofNat 32 i)) (hW : ∀ i < 4, W (buff + BitVec.ofNat 32 i))
    : ∃ m₁ : Space, copyFromUser buffer buff k (⟨m⟩ : Fenced Space R W) = some ⟨m₁⟩ ∧
        printAll (⟨m₁⟩ : Fenced Space R W) buff k = some ((List.range k).map f) ∧
        UserTable m₁ ∧ HasBytes m₁ buffer n f := by
  have hmapped : ∀ i < k, (m.translate (buffer + BitVec.ofNat 32 i)).isSome ∧
      (m.translate (buff + BitVec.ofNat 32 i)).isSome := by
    intro i hi
    constructor
    . rw [← Space.isSome_load, (hbytes i (by omega)).2]
      rfl
    . rw [htable.translate_kernel (hstack.kernelAddr (by omega))]
      rfl
  obtain ⟨m₁, h₁⟩ := Option.isSome_iff_exists.mp (copyBytes_isSome k hmapped)
  have hcopy : copyFromUser buffer buff k m = some m₁ := by
    rw [copyFromUser_eq hk]
    exact h₁
  obtain ⟨htable₁, huser, hbuff⟩ :=
    chunk_user htable hstack hk (fun i hi => (hbytes i (by omega)).1) hcopy
  refine ⟨m₁, ?_, ?_, htable₁, ?_⟩
  . unfold copyFromUser
    rw [copyData_of_le_four (by omega), Int.toNat_natCast, copyBytes_fenced, h₁]
    . rfl
    . exact fun i hi => hR i (by omega)
    . exact fun i hi => hW i (by omega)
  . apply printAll_eq
    intro i hi
    rw [load_fenced (hRbuff i (by omega)), hbuff i hi]
    exact (hbytes i (by omega)).2
  . intro i hi
    obtain ⟨haddr, hload⟩ := hbytes i hi
    exact ⟨haddr, by rw [huser _ haddr, hload]⟩

/--
The rounds together print all the bytes.
-/
theorem writeLoop_fenced (htable : UserTable m) (hstack : StackBuff buff) (hfuel : n < 4 * fuel)
    (hbytes : HasBytes m buffer n f) (hR : ∀ i < n, R (buffer + BitVec.ofNat 32 i))
    (hRbuff : ∀ i < 4, R (buff + BitVec.ofNat 32 i)) (hW : ∀ i < 4, W (buff + BitVec.ofNat 32 i))
    : ∃ m' : Space, writeLoop buff fuel buffer n (⟨m⟩ : Fenced Space R W) =
        some ((List.range n).map f, ⟨m'⟩) := by
  induction fuel generalizing m buffer n f with
  | zero => omega
  | succ fuel ih =>
    unfold writeLoop
    by_cases hfour : (n : Int) ≥ tamWrite
    . have hle : 4 ≤ n := by
        unfold tamWrite at hfour
        omega
      obtain ⟨rest, rfl⟩ := Nat.exists_eq_add_of_le hle
      have hshift : ∀ i, buffer + 4 + BitVec.ofNat 32 i = buffer + BitVec.ofNat 32 (4 + i) := by
        intro i
        bv_omega
      obtain ⟨m₁, hcopy, hprint, htable₁, hbytes₁⟩ :=
        round_fenced htable hstack (le_refl 4) hle hbytes hR hRbuff hW
      have hrest : HasBytes m₁ (buffer + 4) rest fun i => f (4 + i) := by
        intro i hi
        rw [hshift]
        exact hbytes₁ (4 + i) (by omega)
      obtain ⟨m', hloop⟩ := ih htable₁ (by omega) hrest
        (fun i hi => by rw [hshift]; exact hR (4 + i) (by omega))
      have hcopy' : copyFromUser buffer buff tamWrite (⟨m⟩ : Fenced Space R W) = some ⟨m₁⟩ := hcopy
      have hsub : ((4 + rest : Nat) : Int) - tamWrite = rest := by
        unfold tamWrite
        omega
      refine ⟨m', ?_⟩
      rw [if_pos hfour, hcopy', hsub]
      simp only [Option.bind_eq_bind, Option.bind_some, hprint, hloop]
      rw [List.range_add, List.map_append, List.map_map]
      rfl
    . have hlt : n < 4 := by
        unfold tamWrite at hfour
        omega
      obtain ⟨m₁, hcopy, hprint, -⟩ :=
        round_fenced htable hstack (by omega) (le_refl n) hbytes hR hRbuff hW
      refine ⟨m₁, ?_⟩
      rw [if_neg hfour, hcopy]
      simp only [Option.bind_eq_bind, Option.bind_some, Int.toNat_natCast, hprint]

end Rounds

theorem UserTable.userAddr_of_userLoad {m : Space} {a : Addr} {b : Byte} (h : UserTable m)
    (hload : m.mm.userLoad m.pt a = some b) : UserAddr a ∧ ByteMem.load m a = some b := by
  obtain ⟨e, he, hb⟩ := Option.bind_eq_some_iff.mp hload
  obtain ⟨huser, hb⟩ := Option.ite_none_right_eq_some.mp hb
  refine ⟨?_, Option.map_eq_some_iff.mpr ⟨e, he, Option.some.inj hb⟩⟩
  unfold Mm.entryOf at he
  dsimp only at he
  split at he
  next hpage =>
    split at he
    next hpresent =>
      cases he
      by_contra hkernel
      have hlt : a.toNat / pageSize < numPagKernel := by
        unfold UserAddr pagLogInitCode numPagKernel pageSize at *
        omega
      rcases Nat.eq_zero_or_pos (a.toNat / pageSize) with hzero | hpos
      . rw [hzero, Nat.add_zero, h.null] at hpresent
        cases hpresent
      . rw [h.kernel _ hpos hlt] at huser
        cases huser
    next => cases he
  next => cases he

/--
`sys_write` prints the buffer of its caller, all of it and nothing else, within its array of four bytes.
-/
theorem sysWrite_printsBuffer (c : Caller) {buffer : Addr} {size : Int} (hnull : buffer ≠ 0)
    (hsize : 0 ≤ size) (hread : ReadableBuffer c.space buffer size)
    : PrintsBuffer c.buff buffer size c.space := by
  obtain ⟨n, rfl⟩ := Int.eq_ofNat_of_zero_le hsize
  let f i := (c.space.mm.userLoad c.space.pt (buffer + BitVec.ofNat 32 i)).getD 0
  have hload : ∀ i < n, c.space.mm.userLoad c.space.pt (buffer + BitVec.ofNat 32 i) = some (f i) := by
    intro i hi
    obtain ⟨b, hb⟩ := Option.isSome_iff_exists.mp (hread i hi)
    have hf : f i = b := by
      show (c.space.mm.userLoad _ _).getD 0 = b
      rw [hb]
      rfl
    rw [hb, hf]
  have hbytes : HasBytes c.space buffer n f :=
    fun i hi => c.table.userAddr_of_userLoad (hload i hi)
  have hwhole : sysWriteConsole c.space buffer n = (List.range n).map f :=
    sysWriteConsole_eq fun i hi => (hbytes i hi).2
  have hfuel : n < 4 * (n + 1) := by omega
  obtain ⟨m', hloop⟩ := writeLoop_fenced (R := BufferReads c.buff buffer n) (W := InRange c.buff 4)
    c.table c.stack hfuel hbytes (fun i hi => .inl (inRange_add _ hi))
    (fun i hi => .inr (inRange_add _ hi)) (fun i hi => inRange_add _ hi)
  have hresult : sysWrite c.buff 1 buffer n c.space =
      { console := (List.range n).map f, ret := some (n : Int) } := by
    have hfd : checkFd 1 .escriptura = 0 := by decide
    rcases Nat.eq_zero_or_pos n with rfl | hpos
    . rw [sysWrite, if_neg (not_not.mpr hfd), if_neg hnull, if_neg (by omega), if_pos (by simp)]
      rfl
    . rw [sysWrite_eq_writeChunks _ _ hfd hnull (by omega), Int.toNat_natCast,
        writeChunks_of_writeLoop hsize (writeLoop_of_fenced hloop), List.nil_append, Int.zero_add]
  constructor
  . rw [hresult, Int.toNat_natCast, hwhole]
  . rw [hresult, Int.toNat_natCast, List.map_map]
    apply List.map_congr_left
    intro i hi
    exact (hload i (List.mem_range.mp hi)).symm
  . rw [hresult]
    exact ⟨m', hloop⟩

theorem sysWrite_printsBuffer_first : PrintsBuffer firstCaller.buff 0x108000 6 firstCaller.space :=
  sysWrite_printsBuffer firstCaller (by decide) (by decide) (by unfold ReadableBuffer; decide +kernel)

end Zeos
