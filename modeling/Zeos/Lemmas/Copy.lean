import Zeos.Lemmas.Bytes

/-!
The copies of `utils.c` copy: the memory after each round, and from it what both loops leave behind.
-/

namespace Zeos

section Exits

variable {σ : Type} [ByteMem σ]

theorem copyDWords_of_exits {n fuel : Nat} {s s' : CopyState σ}
    (h : Loop.Exits CopyState.moreDWords CopyState.dword n s s') (hn : n ≤ fuel)
    : copyDWords fuel s.p s.q s.size s.mem = some (s'.p, s'.q, s'.size, s'.mem) := by
  induction h generalizing fuel with
  | done hs =>
    cases fuel with
    | zero => rfl
    | succ fuel => exact if_neg hs
  | again hs hbody hrest ih =>
    obtain ⟨fuel, rfl⟩ : ∃ k, fuel = k + 1 := ⟨fuel - 1, by omega⟩
    obtain ⟨m, hm, rfl⟩ := Option.map_eq_some_iff.mp hbody
    have hsize : _ > (4 : Int) := hs
    unfold copyDWords
    rw [if_pos hsize, hm, Option.bind_some]
    exact ih (by omega)

theorem copyBytes_of_exits {n fuel : Nat} {s s' : CopyState σ}
    (h : Loop.Exits CopyState.moreBytes CopyState.byte n s s') (hn : n ≤ fuel)
    : copyBytes fuel s.p s.q s.size s.mem = some s'.mem := by
  induction h generalizing fuel with
  | done hs =>
    cases fuel with
    | zero => rfl
    | succ fuel => exact if_neg hs
  | again hs hbody hrest ih =>
    obtain ⟨fuel, rfl⟩ : ∃ k, fuel = k + 1 := ⟨fuel - 1, by omega⟩
    obtain ⟨m, hm, rfl⟩ := Option.map_eq_some_iff.mp hbody
    have hsize : _ > (0 : Int) := hs
    unfold copyBytes
    rw [if_pos hsize, hm, Option.bind_some]
    exact ih (by omega)

theorem CopyState.size_dword {s s₁ : CopyState σ} (h : s.moreDWords) (hbody : s.dword = some s₁)
    : s₁.size.toNat < s.size.toNat := by
  obtain ⟨m, -, rfl⟩ := Option.map_eq_some_iff.mp hbody
  unfold moreDWords at h
  show (s.size - 4).toNat < s.size.toNat
  omega

theorem CopyState.size_byte {s s₁ : CopyState σ} (h : s.moreBytes) (hbody : s.byte = some s₁)
    : s₁.size.toNat < s.size.toNat := by
  obtain ⟨m, -, rfl⟩ := Option.map_eq_some_iff.mp hbody
  unfold moreBytes at h
  show (s.size - 1).toNat < s.size.toNat
  omega

theorem copyData_of_copyEnds {start dest : Addr} {size : Int} {m m' : σ}
    (h : CopyEnds start dest size m m') : copyData start dest size m = some m' := by
  obtain ⟨n, k, s, s', hdwords, hbytes, rfl⟩ := h
  have hn := hdwords.rounds_le (fun s => s.size.toNat) fun _ _ => CopyState.size_dword
  have hk := hbytes.rounds_le (fun s => s.size.toNat) fun _ _ => CopyState.size_byte
  unfold copyData
  rw [copyDWords_of_exits hdwords hn, Option.bind_some]
  exact copyBytes_of_exits hbytes hk

end Exits

section Ranges

variable {start dest : Addr} {n k j : Nat}

theorem not_inRange_target (h : dest.toNat + n ≤ 2 ^ 32) (hkj : k ≤ j) (hj : j < n)
    : ¬InRange dest k (dest + BitVec.ofNat 32 j) := by
  unfold InRange
  bv_omega

theorem not_inRange_source (h : CopyRanges start dest n) (hkj : k ≤ j) (hj : j < n)
    : ¬InRange dest k (start + BitVec.ofNat 32 j) := by
  obtain ⟨hstart, hdest, hapart⟩ := h
  unfold InRange
  rw [BitVec.le_def] at hapart
  rw [BitVec.toNat_sub, BitVec.toNat_add, BitVec.toNat_ofNat]
  omega

theorem inRange_succ {a : Addr} (hk : k < 2 ^ 32)
    : InRange dest (k + 1) a ↔ InRange dest k a ∨ a = dest + BitVec.ofNat 32 k := by
  unfold InRange
  constructor
  . intro h
    by_cases hlt : (a - dest).toNat < k
    . exact .inl hlt
    . exact .inr (by bv_omega)
  . rintro (h | rfl)
    . omega
    . bv_omega

end Ranges

section Copied

variable {σ : Type} [ByteMem σ]

/--
The memory `m` after the first `k` bytes have been copied: where each byte of it comes from.
-/
def Copied (start dest : Addr) (k : Nat) (m₀ m : σ) : Prop :=
  ∀ a, ByteMem.load m a = ByteMem.load m₀ (if InRange dest k a then start + (a - dest) else a)

variable {start dest : Addr} {n k j : Nat} {m₀ m m' : σ}

namespace Copied

theorem zero : Copied start dest 0 m m := by
  intro a
  rw [if_neg (by unfold InRange; omega)]

theorem load_source (h : Copied start dest k m₀ m) (hr : CopyRanges start dest n) (hkj : k ≤ j)
    (hj : j < n)
    : ByteMem.load m (start + BitVec.ofNat 32 j) = ByteMem.load m₀ (start + BitVec.ofNat 32 j) := by
  rw [h, if_neg (not_inRange_source hr hkj hj)]

theorem load_target (h : Copied start dest k m₀ m) (hr : CopyRanges start dest n) (hkj : k ≤ j)
    (hj : j < n)
    : ByteMem.load m (dest + BitVec.ofNat 32 j) = ByteMem.load m₀ (dest + BitVec.ofNat 32 j) := by
  rw [h, if_neg (not_inRange_target hr.dest_le hkj hj)]

theorem copies (h : Copied start dest n m₀ m) : Copies start dest n m₀ m := by
  constructor
  . intro i hi
    have hoffset : dest + BitVec.ofNat 32 i - dest = BitVec.ofNat 32 i := by
      bv_omega
    rw [h, if_pos (inRange_add dest hi), hoffset]
  . intro a ha
    rw [h, if_neg ha]

variable [LawfulByteMem σ]

theorem store (h : Copied start dest k m₀ m) (hr : CopyRanges start dest n)
    (hdest : Backed dest n m₀) (hk : k < n) {v : Byte}
    (hv : ByteMem.load m₀ (start + BitVec.ofNat 32 k) = some v)
    : ∃ m', ByteMem.store m (dest + BitVec.ofNat 32 k) v = some m' ∧
        Copied start dest (k + 1) m₀ m' := by
  have htarget : (ByteMem.load m (dest + BitVec.ofNat 32 k)).isSome := by
    rw [h.load_target hr (Nat.le_refl k) hk]
    exact hdest k hk
  obtain ⟨m', hstore⟩ := Option.isSome_iff_exists.mp (LawfulByteMem.isSome_store htarget v)
  refine ⟨m', hstore, ?_⟩
  have hbound : k < 2 ^ 32 := by
    have := hr.start_le
    omega
  intro a
  rw [LawfulByteMem.load_of_store hstore, h]
  by_cases ha : a = dest + BitVec.ofNat 32 k
  . have hoffset : dest + BitVec.ofNat 32 k - dest = BitVec.ofNat 32 k := by
      bv_omega
    subst ha
    rw [if_pos rfl, if_pos (inRange_add dest (Nat.lt_succ_self k)), hoffset, hv]
  . simp only [inRange_succ hbound, ha, or_false, if_false]

theorem copyByte (h : Copied start dest k m₀ m) (hr : CopyRanges start dest n)
    (hstart : Backed start n m₀) (hdest : Backed dest n m₀) (hk : k < n)
    : ∃ m', Zeos.copyByte (start + BitVec.ofNat 32 k) (dest + BitVec.ofNat 32 k) m = some m' ∧
        Copied start dest (k + 1) m₀ m' := by
  obtain ⟨v, hv⟩ := Option.isSome_iff_exists.mp (hstart k hk)
  obtain ⟨m', hstore, h'⟩ := h.store hr hdest hk hv
  refine ⟨m', ?_, h'⟩
  unfold Zeos.copyByte
  rw [h.load_source hr (Nat.le_refl k) hk, hv, Option.bind_some, hstore]

theorem copyDWord (h : Copied start dest k m₀ m) (hr : CopyRanges start dest n)
    (hstart : Backed start n m₀) (hdest : Backed dest n m₀) (hk : k + 4 ≤ n)
    : ∃ m', Zeos.copyDWord (start + BitVec.ofNat 32 k) (dest + BitVec.ofNat 32 k) m = some m' ∧
        Copied start dest (k + 4) m₀ m' := by
  -- All four bytes are loaded before the first store, which may already hit the last three of them.
  have hload : ∀ i < 4, ∃ v, ByteMem.load m₀ (start + BitVec.ofNat 32 (k + i)) = some v ∧
      ByteMem.load m (start + BitVec.ofNat 32 (k + i)) = some v := by
    intro i hi
    obtain ⟨v, hv⟩ := Option.isSome_iff_exists.mp (hstart (k + i) (by omega))
    exact ⟨v, hv, by rw [h.load_source hr (by omega) (by omega), hv]⟩
  obtain ⟨b0, hv0, hb0⟩ := hload 0 (by omega)
  obtain ⟨b1, hv1, hb1⟩ := hload 1 (by omega)
  obtain ⟨b2, hv2, hb2⟩ := hload 2 (by omega)
  obtain ⟨b3, hv3, hb3⟩ := hload 3 (by omega)
  obtain ⟨m₁, hm₁, h₁⟩ := h.store hr hdest (by omega) hv0
  obtain ⟨m₂, hm₂, h₂⟩ := h₁.store hr hdest (by omega) hv1
  obtain ⟨m₃, hm₃, h₃⟩ := h₂.store hr hdest (by omega) hv2
  obtain ⟨m₄, hm₄, h₄⟩ := h₃.store hr hdest (by omega) hv3
  refine ⟨m₄, ?_, h₄⟩
  rw [Nat.add_zero] at hb0
  simp only [Nat.add_assoc, Nat.reduceAdd, add_ofNat_add] at hb1 hb2 hb3 hm₂ hm₃ hm₄
  simp [Zeos.copyDWord, hb0, hb1, hb2, hb3, hm₁, hm₂, hm₃, hm₄]

end Copied

def CopyRound (start dest : Addr) (n : Nat) (m₀ : σ) (s : CopyState σ) : Prop :=
  ∃ k, s.p = start + BitVec.ofNat 32 k ∧ s.q = dest + BitVec.ofNat 32 k ∧ k + s.size.toNat = n ∧
    Copied start dest k m₀ s.mem

namespace CopyRound

variable {s : CopyState σ}

theorem advance {w : Nat} (hp : s.p = start + BitVec.ofNat 32 k) (hq : s.q = dest + BitVec.ofNat 32 k)
    (hsize : k + s.size.toNat = n) (hw : w ≤ s.size) (h : Copied start dest (k + w) m₀ m')
    : CopyRound start dest n m₀
        ⟨s.p + BitVec.ofNat 32 w, s.q + BitVec.ofNat 32 w, s.size - w, m'⟩ := by
  refine ⟨k + w, ?_, ?_, ?_, h⟩
  . rw [add_ofNat_add, ← hp]
  . rw [add_ofNat_add, ← hq]
  . show k + w + (s.size - w).toNat = n
    omega

variable [LawfulByteMem σ]

theorem dword (h : CopyRound start dest n m₀ s) (hr : CopyRanges start dest n)
    (hstart : Backed start n m₀) (hdest : Backed dest n m₀) (hmore : s.moreDWords)
    : ∃ s₁, s.dword = some s₁ ∧ CopyRound start dest n m₀ s₁ := by
  obtain ⟨k, hp, hq, hsize, hcopied⟩ := h
  unfold CopyState.moreDWords at hmore
  obtain ⟨m', hm', hcopied'⟩ := hcopied.copyDWord hr hstart hdest (by omega)
  rw [← hp, ← hq] at hm'
  unfold CopyState.dword
  rw [hm']
  exact ⟨_, rfl, advance (w := 4) hp hq hsize (by omega) hcopied'⟩

theorem byte (h : CopyRound start dest n m₀ s) (hr : CopyRanges start dest n)
    (hstart : Backed start n m₀) (hdest : Backed dest n m₀) (hmore : s.moreBytes)
    : ∃ s₁, s.byte = some s₁ ∧ CopyRound start dest n m₀ s₁ := by
  obtain ⟨k, hp, hq, hsize, hcopied⟩ := h
  unfold CopyState.moreBytes at hmore
  obtain ⟨m', hm', hcopied'⟩ := hcopied.copyByte hr hstart hdest (by omega)
  rw [← hp, ← hq] at hm'
  unfold CopyState.byte
  rw [hm']
  exact ⟨_, rfl, advance (w := 1) hp hq hsize (by omega) hcopied'⟩

end CopyRound

theorem copyEnds_of_backed [LawfulByteMem σ] {size : Int} (hr : CopyRanges start dest size.toNat)
    (hstart : Backed start size.toNat m₀) (hdest : Backed dest size.toNat m₀)
    : ∃ m', CopyEnds start dest size m₀ m' ∧ Copies start dest size.toNat m₀ m' := by
  have hfirst : CopyRound start dest size.toNat m₀ ⟨start, dest, size, m₀⟩ :=
    ⟨0, by simp, by simp, by simp, Copied.zero⟩
  obtain ⟨n, -, s, hdwords, hs⟩ := Loop.exits_of_invariant (fun s => s.size.toNat)
    (fun t ht hmore => by
      obtain ⟨t₁, ht₁, h₁⟩ := ht.dword hr hstart hdest hmore
      exact ⟨t₁, ht₁, h₁, CopyState.size_dword hmore ht₁⟩) hfirst
  obtain ⟨k, -, s', hbytes, hs'⟩ := Loop.exits_of_invariant (fun s => s.size.toNat)
    (fun t ht hmore => by
      obtain ⟨t₁, ht₁, h₁⟩ := ht.byte hr hstart hdest hmore
      exact ⟨t₁, ht₁, h₁, CopyState.size_byte hmore ht₁⟩) hs
  refine ⟨s'.mem, ⟨n, k, s, s', hdwords, hbytes, rfl⟩, ?_⟩
  obtain ⟨j, -, -, hsize, hcopied⟩ := hs'
  -- The byte loop is left only when nothing is left to copy.
  have hdone := hbytes.not_cond
  unfold CopyState.moreBytes at hdone
  obtain rfl : j = size.toNat := by omega
  exact hcopied.copies

end Copied

/--
All three functions copy: they end, the bytes from `dest` on are what those from `start` on were, and the
rest of the memory is as before.
-/
theorem copy_exact (m : FlatMem) {start dest : Addr} {size : Int}
    (hr : CopyRanges start dest size.toNat)
    : ∃ m', CopyEnds start dest size m m' ∧
        copyData start dest size m = some m' ∧
        copyFromUser start dest size m = some m' ∧
        copyToUser start dest size m = some m' ∧
        Copies start dest size.toNat m m' := by
  obtain ⟨m', hends, hcopies⟩ := copyEnds_of_backed hr (backed_flat m) (backed_flat m)
  have hdata := copyData_of_copyEnds hends
  exact ⟨m', hends, hdata, hdata, hdata, hcopies⟩

/--
A copy down by one address: the first word that is written covers bytes that have been read with it.
-/
theorem copy_exact_overlap
    : ∃ m', copyData 0x1001 0x1000 7 (fun a => a.setWidth 8 : FlatMem) = some m' ∧
        m' 0x1000 = 1 ∧ m' 0x1006 = 7 ∧ m' 0x1007 = 7 := by
  have hr : CopyRanges 0x1001 0x1000 (7 : Int).toNat := ⟨by decide, by decide, by decide⟩
  obtain ⟨m', -, hdata, -, -, hcopies⟩ := copy_exact (fun a => a.setWidth 8) hr
  refine ⟨m', hdata, ?_, ?_, ?_⟩
  . exact Option.some.inj (hcopies.copied 0 (by decide))
  . exact Option.some.inj (hcopies.copied 6 (by decide))
  . exact Option.some.inj (hcopies.kept 0x1007 (by decide))

end Zeos
