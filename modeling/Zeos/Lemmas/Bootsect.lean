import Zeos.Lemmas.RealMode

/-!
`read_it` reads the sectors behind the boot sector one after the other, as many at a time as the track and the
segment allow.
-/

namespace Zeos

namespace Bootsect

namespace Loader

variable {labels : Labels} {bios : Bios} {disk : Disk} {own : Nat → Prop} {l₀ l l' : Loader} {n : Nat}

section Variables

theorem not_variable {off : BitVec 16} {i : Nat} (hoff : labels.sread.toNat + 6 ≤ off.toNat)
    : ¬labels.Variable (physical initSeg off + i) := by
  unfold Labels.Variable
  rw [physical_initSeg, physical_initSeg]
  omega

theorem After.mem_eq (hbios : bios.Serves disk own) (h : After labels disk own l₀ n l)
    (hn : n ≤ 1024) {a : Nat} (hge : 0x90000 ≤ a) (hlt : a < 0x90200) (hvar : ¬labels.Variable a)
    : l.mem a = l₀.mem a := by
  apply h.mem.kept a _ hvar _ (not_own hbios (by omega) (by omega))
  . right
    change 0x10000 + 512 * n ≤ a
    omega
  . rw [unused_iff]
    omega

theorem After.var (hbios : bios.Serves disk own) (h : After labels disk own l₀ n l) (hn : n ≤ 1024)
    {off : BitVec 16} (hoff : labels.sread.toNat + 6 ≤ off.toNat) (hlt : off.toNat + 2 ≤ 512)
    : l.var off = l₀.var off := by
  apply Halves.read_congr
  intro i hi
  rw [physical_initSeg]
  exact h.mem_eq hbios hn (by omega) (by omega) (not_variable hoff)

theorem read_segment (mem : Memory) (seg off : BitVec 16)
    : Halves.read (fun i => mem (physical seg 0 + i)) off.toNat = Halves.read mem (physical seg off) :=
  rfl

theorem read_sector (l : Loader) (off : BitVec 16)
    : Halves.read (fun i => l.mem (physical initSeg 0 + i)) off.toNat = l.var off :=
  rfl

theorem After.sectors_eq (hbios : bios.Serves disk own) (h₀ : AtReadIt labels l₀)
    (h : After labels disk own l₀ n l) (hn : n ≤ 1024) : (l.var labels.sectors).toNat = secPista := by
  have hsread := labels.sread_le
  have hsectors := labels.sectors_le
  rw [h.var hbios hn hsread (by omega), ← read_sector, h₀.assembled.sectors]
  rfl

theorem After.syssize_eq (hbios : bios.Serves disk own) (h : After labels disk own l₀ n l) (hn : n ≤ 1024)
    : l.var syssize = l₀.var syssize := by
  have hbounds := labels.bounds
  have hsyssize : syssize.toNat = 500 := rfl
  exact h.var hbios hn (by omega) (by omega)

theorem var_setVar {off off' v : BitVec 16} (h : off'.toNat + 2 ≤ off.toNat ∨ off.toNat + 2 ≤ off'.toNat)
    : (l.setVar off v).var off' = l.var off' := by
  apply Halves.read_write_of_disjoint
  rw [physical_initSeg, physical_initSeg]
  omega

theorem var_setVar_self (off v : BitVec 16) (l : Loader) : (l.setVar off v).var off = v :=
  Halves.read_write

theorem mem_setVar (off v : BitVec 16) (l : Loader) {a : Nat} (hge : labels.sread.toNat ≤ off.toNat)
    (hle : off.toNat ≤ labels.sread.toNat + 4) (ha : ¬labels.Variable a)
    : (l.setVar off v).mem a = l.mem a := by
  unfold Labels.Variable at ha
  apply Halves.write_outside
  rw [physical_initSeg] at *
  omega

end Variables

section Count

/-- The sectors up to the end of the track, or up to the end of the segment where that comes first. -/
theorem After.count (hbios : bios.Serves disk own) (h₀ : AtReadIt labels l₀)
    (h : After labels disk own l₀ n l) (hn : n ≤ 1024)
    : (l.ok1Read labels).ax.toNat = min (secPista - (l.var labels.sread).toNat) (128 - n % 128) := by
  have hsread := h.sread
  have hsectors := h.sectors_eq hbios h₀ hn
  have hbx := h.bx
  unfold ok1Read
  dsimp only
  generalize l.var labels.sread = sread at *
  have hax : (l.var labels.sectors - sread).toNat = secPista - sread.toNat := by
    unfold secPista at *
    bv_omega
  have hcx : ((l.var labels.sectors - sread) <<< 9).toNat = 512 * (secPista - sread.toNat) := by
    rw [BitVec.toNat_shiftLeft, hax, Nat.shiftLeft_eq]
    unfold secPista
    omega
  have hrest : ((0 - l.bx) >>> 9).toNat = (2 ^ 16 - l.bx.toNat) % 2 ^ 16 / 512 := by
    rw [BitVec.toNat_ushiftRight, Nat.shiftRight_eq_div_pow]
    congr 1
  unfold secPista at *
  split
  next hfits =>
    dsimp only
    rw [hax]
    cases hfits with
    | inl hcarry => omega
    | inr hzero =>
      have hsum := congrArg BitVec.toNat hzero
      rw [BitVec.toNat_add] at hsum
      change _ = 0 at hsum
      omega
  next hfits =>
    obtain ⟨hcarry, -⟩ := not_or.mp hfits
    dsimp only
    rw [hrest]
    omega

theorem After.count_pos (hbios : bios.Serves disk own) (h₀ : AtReadIt labels l₀)
    (h : After labels disk own l₀ n l) (hn : n ≤ 1024) : 1 ≤ (l.ok1Read labels).ax.toNat := by
  have hsread := h.sread
  rw [h.count hbios h₀ hn]
  omega

theorem ok1Read_eq (labels : Labels) (l : Loader)
    : ∃ cx, l.ok1Read labels = { l with ax := (l.ok1Read labels).ax, cx := cx } := by
  unfold ok1Read
  dsimp only
  split
  . exact ⟨_, rfl⟩
  . exact ⟨_, rfl⟩

end Count

section Request

theorem low_append (h b : Byte) : low (h ++ b) = b :=
  BitVec.extractLsb'_append_eq_right

theorem high_append (h b : Byte) : high (h ++ b) = h :=
  BitVec.extractLsb'_append_eq_left

theorem toNat_low (r : BitVec 16) : (low r).toNat = r.toNat % 256 := by
  unfold low
  rw [BitVec.extractLsb'_toNat, Nat.shiftRight_zero]

theorem After.physical (h : After labels disk own l₀ n l) : physical l.es l.bx = loadBase + 512 * n := by
  unfold Bootsect.physical loadBase
  rw [h.es, h.bx]
  omega

theorem After.track_lt (h : After labels disk own l₀ n l) (hn : n ≤ 1024)
    : (l.var labels.track).toNat < cylinders := by
  have hplace := h.place
  unfold sectorNumber heads secPista at hplace
  unfold cylinders
  omega

theorem After.place_eq (h : After labels disk own l₀ n l) (hn : n ≤ 1024)
    : (low (l.var labels.track)).toNat + 256 * (low (l.var labels.sread + 1) >>> 6).toNat =
        (l.var labels.track).toNat ∧
      (low (l.var labels.sread + 1) &&& 0x3f).toNat = (l.var labels.sread).toNat + 1 ∧
      (low (l.var labels.head) &&& 1).toNat = (l.var labels.head).toNat := by
  have htrack := h.track_lt hn
  have hsread := h.sread
  have hhead := h.head
  unfold cylinders at htrack
  unfold secPista at hsread
  unfold heads at hhead
  have hcl : (low (l.var labels.sread + 1)).toNat = (l.var labels.sread).toNat + 1 := by
    rw [toNat_low, BitVec.toNat_add]
    change ((l.var labels.sread).toNat + 1) % 2 ^ 16 % 256 = _
    omega
  refine ⟨?_, ?_, ?_⟩
  . rw [BitVec.toNat_ushiftRight, hcl, toNat_low, Nat.shiftRight_eq_div_pow]
    omega
  . rw [BitVec.toNat_and, hcl]
    change _ &&& 2 ^ 6 - 1 = _
    rw [Nat.and_two_pow_sub_one_eq_mod]
    omega
  . rw [BitVec.toNat_and, toNat_low]
    change _ &&& 2 ^ 1 - 1 = _
    rw [Nat.and_two_pow_sub_one_eq_mod]
    omega

theorem side_eq (b : Byte) : (b ++ b : BitVec 16) &&& 0x0100 = (b &&& 1) ++ 0#8 := by
  change (b ++ b : BitVec 16) &&& (1#8 ++ 0#8) = _
  rw [BitVec.and_append, BitVec.and_zero]
  rfl

theorem After.toNat_sp (h₀ : AtReadIt labels l₀) (h : After labels disk own l₀ n l)
    : l.sp.toNat = 0x3FF2 := by
  rw [h.sp, h₀.sp]
  rfl

/-- The drive can do what it is asked for, and it reads the sectors that come next. -/
theorem After.request (hbios : bios.Serves disk own) (h₀ : AtReadIt labels l₀)
    (h : After labels disk own l₀ n l) (hn : n ≤ 1024)
    : (l.request labels bios).Reads ∧ (low (l.request labels bios).ax).toNat = (l.ok1Read labels).ax.toNat ∧
      Bootsect.physical (l.request labels bios).es (l.request labels bios).bx = loadBase + 512 * n ∧
      sectorNumber (l.request labels bios).cylinder (high (l.request labels bios).dx).toNat
        ((l.request labels bios).sector - 1) = n + 1 := by
  have hsp := h.toNat_sp h₀
  have hcount := h.count hbios h₀ hn
  have hpos := h.count_pos hbios h₀ hn
  have htrack := h.track_lt hn
  have hsread := h.sread
  have hphysical := h.physical
  obtain ⟨hcylinder, hsector, hhead⟩ := h.place_eq hn
  obtain ⟨cx, hok1⟩ := ok1Read_eq labels l
  have hasked : Asked labels (l.ok1Read labels) (l.request labels bios) := by
    have hsp' : (l.ok1Read labels).sp.toNat = 0x3FF2 := by
      rw [hok1]
      exact hsp
    exact asked_push hbios (by omega) (by omega)
  generalize hr : l.request labels bios = r at *
  generalize hax : (l.ok1Read labels).ax = count at *
  have hrax : r.ax = 2#8 ++ low count := by
    rw [hasked.ax, hax]
  have hrbx : r.bx = l.bx := by
    rw [hasked.bx, hok1]
  have hrcx : r.cx = low (l.var labels.track) ++ low (l.var labels.sread + 1) := by
    rw [hasked.cx, hok1]
    rfl
  have hrdx : r.dx = (low (l.var labels.head) &&& 1) ++ 0#8 := by
    rw [hasked.dx, side_eq, hok1]
    rfl
  have hres : r.es = l.es := by
    rw [hasked.es, hok1]
  have hal : (low r.ax).toNat = count.toNat := by
    rw [hrax, low_append, toNat_low]
    unfold secPista at *
    omega
  have hplace : r.cylinder = (l.var labels.track).toNat ∧ (high r.dx).toNat = (l.var labels.head).toNat ∧
      r.sector = (l.var labels.sread).toNat + 1 := by
    unfold Loader.cylinder Loader.sector
    rw [hrcx, hrdx, high_append, low_append, high_append]
    exact ⟨hcylinder, hhead, hsector⟩
  obtain ⟨hc, hh, hs⟩ := hplace
  have hbuffer : Bootsect.physical r.es r.bx = loadBase + 512 * n := by
    rw [hres, hrbx, hphysical]
  refine ⟨⟨?_, ?_, ?_⟩, hal, hbuffer, ?_⟩
  . rw [hrax, high_append]
    rfl
  . rw [hrdx, low_append]
    rfl
  . rw [hal, hc, hh, hs, hbuffer]
    refine ⟨hpos, htrack, h.head, by omega, by omega, ?_⟩
    unfold loadBase
    omega
  . rw [hc, hh, hs, Nat.add_sub_cancel, h.place]

end Request

section Round

theorem loaded_of_read (hbios : bios.Serves disk own) {mem mem' : Memory} {count : Nat}
    (h : Loaded labels disk own l₀ (512 * n) mem) (hn : n ≤ 1024)
    (hread : ∀ i < 512 * count, mem' (loadBase + 512 * n + i) = disk (512 * (n + 1) + i))
    (hkept : ∀ a, ¬own a → ¬(0x10000 + 512 * n ≤ a ∧ a < 0x10000 + 512 * n + 512 * count) →
      ¬l₀.Unused a → mem' a = mem a)
    : Loaded labels disk own l₀ (512 * (n + count)) mem' where
  loaded i hi := by
    have hbase : loadBase = 0x10000 := rfl
    by_cases hold : i < 512 * n
    . rw [← h.loaded i hold]
      apply hkept _ (not_own hbios (by omega) (by omega)) (by omega)
      rw [unused_iff]
      omega
    . have hnew := hread (i - 512 * n) (by omega)
      rw [show loadBase + i = loadBase + 512 * n + (i - 512 * n) by omega, hnew]
      congr 1
      omega
  kept a hout hvar hunused hown := by
    unfold loadBase at hout
    rw [← h.kept a (by unfold loadBase; omega) hvar hunused hown]
    exact hkept a hown (by omega) hunused

theorem After.readTrack (hbios : bios.Serves disk own) (h₀ : AtReadIt labels l₀)
    (h : After labels disk own l₀ n l) (hn : n < 1024)
    : ∃ mem, (l.callReadTrack labels).readTrack labels bios =
        { l.ok1Read labels with ip := labels.afterReadTrack, mem := mem } ∧
        Loaded labels disk own l₀ (512 * (n + (l.ok1Read labels).ax.toNat)) mem ∧
        ∀ a, 0x90000 ≤ a → a < 0x90200 → mem a = l.mem a := by
  have hsp := h.toNat_sp h₀
  have hcount := h.count hbios h₀ (by omega)
  obtain ⟨hreads, hal, hbuffer, hplace⟩ := h.request hbios h₀ (by omega)
  obtain ⟨cx, hok1⟩ := ok1Read_eq labels l
  have hsp' : (l.ok1Read labels).sp = l.sp := by
    rw [hok1]
  have hmem' : (l.ok1Read labels).mem = l.mem := by
    rw [hok1]
  have hin : ∀ a, (l.request labels bios).InBuffer a ↔
      0x10000 + 512 * n ≤ a ∧ a < 0x10000 + 512 * n + 512 * (l.ok1Read labels).ax.toNat := by
    intro a
    unfold InBuffer
    rw [hbuffer, hal]
    rfl
  have hunused : ∀ a, (l.ok1Read labels).Unused a ↔ l₀.Unused a := by
    intro a
    rw [unused_iff, unused_iff, hsp', h.sp]
  have hbelow : ∀ a, (l.request labels bios).InBuffer a → loadBase ≤ a ∧ a < Bootsect.physical initSeg 0 := by
    intro a ha
    rw [hin] at ha
    have hsector : Bootsect.physical initSeg 0 = 0x90000 := rfl
    unfold loadBase
    omega
  have hroom : 0x2002 ≤ (l.ok1Read labels).sp.toNat := by
    rw [hsp']
    omega
  have htop : (l.ok1Read labels).sp.toNat ≤ 0x4000 := by
    rw [hsp']
    omega
  obtain ⟨mem, heq, hread, hkept⟩ : ∃ mem, (l.callReadTrack labels).readTrack labels bios =
      { l.ok1Read labels with ip := labels.afterReadTrack, mem := mem } ∧
      (l.request labels bios).Read disk mem ∧
      ∀ a, ¬own a → ¬(l.request labels bios).InBuffer a → ¬(l.ok1Read labels).Unused a →
        mem a = (l.ok1Read labels).mem a :=
    readTrack_spec hbios hroom htop hreads hbelow
  have hkept : ∀ a, ¬own a →
      ¬(0x10000 + 512 * n ≤ a ∧ a < 0x10000 + 512 * n + 512 * (l.ok1Read labels).ax.toNat) →
      ¬l₀.Unused a → mem a = l.mem a := by
    intro a hown hout hun
    rw [← hin] at hout
    rw [← hunused] at hun
    rw [hkept a hown hout hun, hmem']
  refine ⟨mem, heq, loaded_of_read hbios h.mem (by omega) ?_ hkept, ?_⟩
  . intro i hi
    have hnew := hread i (by rw [hal]; exact hi)
    rwa [hbuffer, hplace] at hnew
  . intro a hge hlt
    apply hkept a (not_own hbios (by omega) (by omega)) (by omega)
    rw [unused_iff, ← h.sp]
    omega

theorem nextSide_vars (labels : Labels) (l : Loader)
    : (l.nextSide labels).var labels.head = 1 - l.var labels.head ∧
      (l.nextSide labels).var labels.track =
        if 1 - l.var labels.head ≠ 0 then l.var labels.track else l.var labels.track + 1 := by
  obtain ⟨-, hhead, htrack⟩ := labels.bounds
  constructor
  . exact var_setVar_self _ _ _
  . refine (var_setVar (by omega)).trans ?_
    split
    next => rfl
    next => exact var_setVar_self _ _ _

theorem nextSide_eq (labels : Labels) (l : Loader)
    : ∃ mem, l.nextSide labels = { l with ax := 0, mem := mem } ∧ ∀ a, ¬labels.Variable a → mem a = l.mem a := by
  obtain ⟨-, hhead, htrack⟩ := labels.bounds
  unfold nextSide
  dsimp only
  split
  . exact ⟨_, rfl, fun a ha => mem_setVar _ _ _ (by omega) (by omega) ha⟩
  . refine ⟨_, rfl, fun a ha => ?_⟩
    rw [mem_setVar _ _ _ (by omega) (by omega) ha, mem_setVar _ _ _ (by omega) (by omega) ha]

theorem nextPlace_eq (labels : Labels) (l : Loader)
    : ∃ ax mem, l.nextPlace labels = { l with cx := l.ax, ax := ax, mem := mem } ∧
        ∀ a, ¬labels.Variable a → mem a = l.mem a := by
  unfold nextPlace
  dsimp only
  split
  . exact ⟨_, _, rfl, fun a ha => mem_setVar _ _ _ (by omega) (by omega) ha⟩
  . obtain ⟨mem, heq, hmem⟩ := nextSide_eq labels { l with cx := l.ax, ax := l.ax + l.var labels.sread }
    rw [heq]
    refine ⟨_, _, rfl, fun a ha => ?_⟩
    exact (mem_setVar labels.sread _ _ (by omega) (by omega) ha).trans (hmem a ha)

/-- On the disk, the next sector is on the same track, on the other side or on the next cylinder. -/
theorem nextPlace_place (hsectors : (l.var labels.sectors).toNat = secPista)
    (hsread : (l.var labels.sread).toNat < secPista) (hhead : (l.var labels.head).toNat < heads)
    (htrack : (l.var labels.track).toNat < cylinders)
    (hax : l.ax.toNat ≤ secPista - (l.var labels.sread).toNat)
    : ((l.nextPlace labels).var labels.sread).toNat < secPista ∧
      ((l.nextPlace labels).var labels.head).toNat < heads ∧
      sectorNumber ((l.nextPlace labels).var labels.track).toNat ((l.nextPlace labels).var labels.head).toNat
          ((l.nextPlace labels).var labels.sread).toNat =
        sectorNumber (l.var labels.track).toNat (l.var labels.head).toNat (l.var labels.sread).toNat
          + l.ax.toNat := by
  obtain ⟨-, hheadAt, htrackAt⟩ := labels.bounds
  have hsum : (l.ax + l.var labels.sread).toNat = l.ax.toNat + (l.var labels.sread).toNat := by
    rw [BitVec.toNat_add]
    unfold secPista at *
    omega
  have hzero : (0 : BitVec 16).toNat = 0 := rfl
  unfold sectorNumber heads secPista cylinders at *
  unfold nextPlace
  dsimp only
  rw [var_setVar_self, var_setVar (by omega), var_setVar (by omega)]
  split
  next hne =>
    have hlt : (l.ax + l.var labels.sread).toNat ≠ 18 := by
      rw [← hsectors]
      exact fun heq => hne (BitVec.eq_of_toNat_eq heq)
    change (l.ax + l.var labels.sread).toNat < 18 ∧ (l.var labels.head).toNat < 2 ∧
      ((l.var labels.track).toNat * 2 + (l.var labels.head).toNat) * 18 + (l.ax + l.var labels.sread).toNat = _
    omega
  next hend =>
    have hfull : (l.ax + l.var labels.sread).toNat = 18 := by
      rw [not_not.mp hend, hsectors]
    obtain ⟨hother, hnext⟩ := nextSide_vars labels { l with cx := l.ax, ax := l.ax + l.var labels.sread }
    have hotherNat : (1 - l.var labels.head).toNat = 1 - (l.var labels.head).toNat := by
      bv_omega
    rw [hother, hnext]
    change (0 : BitVec 16).toNat < _ ∧ (1 - l.var labels.head).toNat < 2 ∧
      ((if 1 - l.var labels.head ≠ 0 then l.var labels.track else l.var labels.track + 1).toNat * 2
        + (1 - l.var labels.head).toNat) * 18 + (0 : BitVec 16).toNat = _
    rw [hotherNat, hzero]
    split
    next hside =>
      have hfirst : (1 - l.var labels.head).toNat ≠ 0 :=
        fun h0 => hside (BitVec.eq_of_toNat_eq (h0.trans hzero.symm))
      omega
    next hside =>
      have hsecond := congrArg BitVec.toNat (not_not.mp hside)
      have hinc : (l.var labels.track + 1).toNat = (l.var labels.track).toNat + 1 := by
        bv_omega
      omega

theorem toNat_addAh (es : BitVec 16) {k : Nat} (hes : es.toNat = 0x1000 * k) (hk : k < 15)
    : ((high es + 0x10) ++ low es).toNat = 0x1000 * (k + 1) := by
  have hah : (high es + 0x10).toNat = 16 * (k + 1) := by
    unfold high
    rw [BitVec.toNat_add, BitVec.extractLsb'_toNat, Nat.shiftRight_eq_div_pow]
    change (es.toNat / 2 ^ 8 % 2 ^ 8 + 16) % 2 ^ 8 = _
    omega
  have hal : (low es).toNat = 0 := by
    rw [toNat_low]
    omega
  rw [BitVec.toNat_append, hah, hal, Nat.or_zero, Nat.shiftLeft_eq]
  omega

/-- In memory, the next sector is behind the last one, or at the start of the next segment. -/
theorem nextBuffer_eq (hes : l.es.toNat = 0x1000 + 0x1000 * (n / 128)) (hbx : l.bx.toNat = 512 * (n % 128))
    (hn : n < 1024) (hc : l.cx.toNat ≤ 128 - n % 128) (htrack : l.cx.toNat ≤ secPista)
    : (l.nextBuffer).es.toNat = 0x1000 + 0x1000 * ((n + l.cx.toNat) / 128) ∧
      (l.nextBuffer).bx.toNat = 512 * ((n + l.cx.toNat) % 128) ∧
      l.nextBuffer.sp = l.sp ∧ l.nextBuffer.mem = l.mem := by
  have hcx : (l.cx <<< 9).toNat = 512 * l.cx.toNat := by
    rw [BitVec.toNat_shiftLeft, Nat.shiftLeft_eq]
    unfold secPista at htrack
    omega
  unfold nextBuffer
  dsimp only
  by_cases hend : l.bx.toNat + (l.cx <<< 9).toNat < 2 ^ 16
  . have hsum : (l.bx + l.cx <<< 9).toNat = l.bx.toNat + (l.cx <<< 9).toNat := by
      rw [BitVec.toNat_add, Nat.mod_eq_of_lt hend]
    rw [if_pos hend]
    refine ⟨?_, ?_, rfl, rfl⟩
    . dsimp only
      omega
    . dsimp only
      omega
  . have hnext := toNat_addAh l.es (k := n / 128 + 1) (by omega) (by omega)
    have hzero : (0 : BitVec 16).toNat = 0 := rfl
    rw [if_neg hend]
    refine ⟨?_, ?_, rfl, rfl⟩
    . dsimp only
      omega
    . dsimp only
      omega

theorem loaded_of_variable {mem mem' : Memory} (h : Loaded labels disk own l₀ (512 * n) mem) (hn : n ≤ 1024)
    (hmem : ∀ a, ¬labels.Variable a → mem' a = mem a) : Loaded labels disk own l₀ (512 * n) mem' where
  loaded i hi := by
    rw [← h.loaded i hi]
    apply hmem
    unfold Labels.Variable loadBase
    rw [physical_initSeg]
    omega
  kept a hout hvar hunused hown := by
    rw [hmem a hvar]
    exact h.kept a hout hvar hunused hown

theorem After.round (hbios : bios.Serves disk own) (h₀ : AtReadIt labels l₀)
    (h : After labels disk own l₀ n l) (hn : n < 1024)
    : ∃ l', l.round labels bios = some l' ∧ After labels disk own l₀ (n + (l.ok1Read labels).ax.toNat) l' := by
  obtain ⟨hsreadAt, hheadAt, htrackAt⟩ := labels.bounds
  have hsectorsAt := labels.sectors_le
  have hcount := h.count hbios h₀ (by omega)
  have hes := h.es
  have hbx := h.bx
  obtain ⟨cx, hok1⟩ := ok1Read_eq labels l
  obtain ⟨mem, hread, hloaded, hkept⟩ := h.readTrack hbios h₀ hn
  generalize (l.ok1Read labels).ax = count at *
  rw [hok1] at hread
  generalize hm : ({ l with ax := count, cx := cx, ip := labels.afterReadTrack, mem := mem } : Loader) = m at hread
  have hvar : ∀ off : BitVec 16, off.toNat + 2 ≤ 512 → m.var off = l.var off := by
    intro off hoff
    apply Halves.read_congr
    intro i hi
    rw [← hm, physical_initSeg]
    exact hkept _ (by omega) (by omega)
  have hsectors := h.sectors_eq hbios h₀ (by omega)
  have hsread := h.sread
  have hhead := h.head
  have htrack := h.track_lt (by omega)
  have hplace := h.place
  rw [← hvar _ (by omega)] at hsectors hsread hhead htrack
  rw [← hvar _ (by omega), ← hvar _ (by omega), ← hvar _ (by omega)] at hplace
  rw [← hvar _ (by omega)] at hcount
  have hax : m.ax = count := by rw [← hm]
  obtain ⟨hsread', hhead', hplace'⟩ := nextPlace_place hsectors hsread hhead htrack (by rw [hax]; omega)
  obtain ⟨ax, mem', hnext, hmem'⟩ := nextPlace_eq labels m
  rw [hplace, hax] at hplace'
  have hround : l.round labels bios = some (m.nextPlace labels).nextBuffer := by
    unfold Loader.round
    rw [hread, ← hm]
    exact if_pos rfl
  generalize m.nextPlace labels = p at *
  have hpcx : p.cx = count := by rw [hnext, ← hm]
  have hpes : p.es = l.es := by rw [hnext, ← hm]
  have hpbx : p.bx = l.bx := by rw [hnext, ← hm]
  have hpsp : p.sp = l.sp := by rw [hnext, ← hm]
  have hpmem : p.mem = mem' := by rw [hnext]
  obtain ⟨hes', hbx', hsp', hbmem⟩ := nextBuffer_eq (l := p) (by rw [hpes, hes]) (by rw [hpbx, hbx]) hn
    (by rw [hpcx]; omega) (by rw [hpcx]; omega)
  have hbvar : ∀ off, p.nextBuffer.var off = p.var off := by
    intro off
    unfold Loader.var
    rw [hbmem]
  rw [hpcx] at hes' hbx'
  refine ⟨_, hround, ?_⟩
  constructor
  . rw [hsp', hpsp, h.sp]
  . rw [hbmem, hpmem]
    apply loaded_of_variable hloaded (by omega)
    rw [← hm] at hmem'
    exact hmem'
  . exact hes'
  . exact hbx'
  . rw [hbvar]
    exact hsread'
  . rw [hbvar]
    exact hhead'
  . rw [hbvar, hbvar, hbvar, hplace']
    omega

end Round

section Rounds

theorem Reaches.head {l'' : Loader} (hmore : l.More) (hround : l.round labels bios = some l')
    (h : Reaches labels bios l' l'') : Reaches labels bios l l'' := by
  induction h with
  | refl => exact .round .refl hmore hround
  | round _ hmore hround ih => exact .round ih hmore hround

theorem var_sread_start (h₀ : AtReadIt labels l₀) : (l₀.start labels).var labels.sread = 1 := by
  have hword := congrArg BitVec.toNat h₀.assembled.sread
  rw [read_sector] at hword
  unfold var at hword
  rw [Halves.toNat_read] at hword
  change _ = 0 at hword
  have hsects : l₀.mem (Bootsect.physical initSeg setupSects) = setupSecs := h₀.assembled.setupSects
  apply BitVec.eq_of_toNat_eq
  unfold var start
  dsimp only
  rw [Halves.toNat_read, Function.update_self, Function.update_of_ne (by omega), hsects]
  change 1 + 256 * _ = 1
  omega

theorem after_start (disk : Disk) (own : Nat → Prop) (h₀ : AtReadIt labels l₀)
    : After labels disk own l₀ 0 (l₀.start labels) := by
  obtain ⟨hsread, hhead, htrack⟩ := labels.bounds
  have hmem : ∀ a, a ≠ Bootsect.physical initSeg labels.sread → (l₀.start labels).mem a = l₀.mem a :=
    fun a ha => Function.update_of_ne ha _ _
  have hvar : ∀ off : BitVec 16, labels.sread.toNat + 2 ≤ off.toNat → (l₀.start labels).var off = l₀.var off := by
    intro off hoff
    apply Halves.read_congr
    intro i hi
    apply hmem
    rw [physical_initSeg, physical_initSeg]
    omega
  constructor
  . rfl
  . constructor
    . intro i hi
      omega
    . intro a _ hvariable _ _
      apply hmem
      unfold Labels.Variable at hvariable
      omega
  . change l₀.es.toNat = _
    rw [h₀.es]
    rfl
  . rfl
  . rw [var_sread_start h₀]
    decide
  . rw [hvar _ (by omega), ← read_sector, h₀.assembled.head]
    decide
  . rw [var_sread_start h₀, hvar _ (by omega), hvar _ (by omega), ← read_sector, ← read_sector,
      h₀.assembled.head, h₀.assembled.track]
    rfl

theorem After.more_iff (hbios : bios.Serves disk own) (h : After labels disk own l₀ n l) (hn : n ≤ 1024)
    : l.More ↔ 0x1000 * (n / 128) ≤ (l₀.var syssize).toNat := by
  have hes := h.es
  have hoffset : (l.es - sysSeg).toNat = 0x1000 * (n / 128) := by
    unfold sysSeg
    bv_omega
  unfold More
  rw [h.syssize_eq hbios hn, BitVec.le_def, hoffset]

theorem After.exists_round (hbios : bios.Serves disk own) (h₀ : AtReadIt labels l₀)
    (h : After labels disk own l₀ n l) (hn : n < 1024)
    : ∃ l' n', l.round labels bios = some l' ∧ After labels disk own l₀ n' l' ∧ n < n' ∧
        n' ≤ 128 * (n / 128 + 1) := by
  have hcount := h.count hbios h₀ (by omega)
  have hpos := h.count_pos hbios h₀ (by omega)
  obtain ⟨l', hround, hafter⟩ := h.round hbios h₀ hn
  exact ⟨l', _, hround, hafter, by omega, by omega⟩

def Within (labels : Labels) (disk : Disk) (own : Nat → Prop) (l₀ l : Loader) : Prop :=
  ∃ n, After labels disk own l₀ n l ∧ n ≤ 128 * ((l₀.var syssize).toNat / 0x1000 + 1)

def left (l : Loader) : Nat :=
  1024 - (Bootsect.physical l.es l.bx - loadBase) / 512

theorem After.left (h : After labels disk own l₀ n l) : l.left = 1024 - n := by
  unfold Loader.left
  rw [h.physical]
  omega

theorem Within.round (hbios : bios.Serves disk own) (h₀ : AtReadIt labels l₀)
    (h : Within labels disk own l₀ l) (hsize : (l₀.var syssize).toNat < 0x8000) (hmore : l.More)
    : ∃ l', l.round labels bios = some l' ∧ Within labels disk own l₀ l' ∧ l'.left < l.left := by
  obtain ⟨n, hafter, hn⟩ := h
  have hlt := (hafter.more_iff hbios (by omega)).mp hmore
  obtain ⟨l', n', hround, hafter', hpos, hend⟩ := hafter.exists_round hbios h₀ (by omega)
  refine ⟨l', hround, ⟨n', hafter', by omega⟩, ?_⟩
  rw [hafter.left, hafter'.left]
  omega

theorem Within.request (hbios : bios.Serves disk own) (h₀ : AtReadIt labels l₀)
    (h : Within labels disk own l₀ l) (hsize : (l₀.var syssize).toNat < 0x8000) (hmore : l.More)
    : (l.request labels bios).Reads ∧ l.SparesBoot labels bios := by
  obtain ⟨n, hafter, hn⟩ := h
  have hlt := (hafter.more_iff hbios (by omega)).mp hmore
  have hcount := hafter.count hbios h₀ (by omega)
  obtain ⟨hreads, hal, hbuffer, -⟩ := hafter.request hbios h₀ (by omega)
  refine ⟨hreads, ?_⟩
  rintro a ⟨-, ha⟩
  rw [hal, hbuffer] at ha
  change a < 0x90000
  unfold loadBase at ha
  omega

theorem Within.of_reaches (hbios : bios.Serves disk own) (h₀ : AtReadIt labels l₀)
    (hsize : (l₀.var syssize).toNat < 0x8000) (h : Reaches labels bios (l₀.start labels) l)
    : Within labels disk own l₀ l := by
  induction h with
  | refl => exact ⟨0, after_start disk own h₀, by omega⟩
  | round h hmore hround ih =>
    obtain ⟨l', hround', hwithin, -⟩ := ih.round hbios h₀ hsize hmore
    rw [hround] at hround'
    cases hround'
    exact hwithin

/-- With a larger `syssize`, the loader comes to where the next read is to the boot sector. -/
theorem After.reaches_boot (hbios : bios.Serves disk own) (h₀ : AtReadIt labels l₀)
    (h : After labels disk own l₀ n l) (hn : n ≤ 1024) (hsize : 0x8000 ≤ (l₀.var syssize).toNat)
    : ∃ l', Reaches labels bios l l' ∧ After labels disk own l₀ 1024 l' := by
  induction hk : 1024 - n using Nat.strongRecOn generalizing n l with
  | _ k ih =>
    by_cases hend : n = 1024
    . exact ⟨l, .refl, hend ▸ h⟩
    . obtain ⟨l', n', hround, hafter, hlt, hle⟩ := h.exists_round hbios h₀ (by omega)
      have hmore : l.More := (h.more_iff hbios hn).mpr (by omega)
      obtain ⟨l'', hreaches, hafter''⟩ := ih (1024 - n') (by omega) hafter (by omega) rfl
      exact ⟨l'', .head hmore hround hreaches, hafter''⟩

end Rounds

end Loader

open Loader

section Move

theorem repMovsw_eq {ds es : BitVec 16} {cx : Nat} {si di : BitVec 16} {mem : Memory}
    (hsi : si.toNat + 2 * cx < 2 ^ 16) (hdi : di.toNat + 2 * cx < 2 ^ 16)
    (hapart : physical ds si + 2 * cx ≤ physical es di ∨ physical es di + 2 * cx ≤ physical ds si)
    : repMovsw ds es cx si di mem =
        Block.put (physical es di) (2 * cx) (fun i => mem (physical ds si + i)) mem := by
  induction cx generalizing si di mem with
  | zero => exact Block.put_zero.symm
  | succ cx ih =>
    have hsi' : (si + 2).toNat = si.toNat + 2 := by
      bv_omega
    have hdi' : (di + 2).toNat = di.toNat + 2 := by
      bv_omega
    have hsource : physical ds (si + 2) = physical ds si + 2 := by
      unfold physical
      omega
    have hdest : physical es (di + 2) = physical es di + 2 := by
      unfold physical
      omega
    unfold repMovsw
    dsimp only
    rw [ih (by omega) (by omega) (by omega), hsource, hdest, show 2 * (cx + 1) = 2 + 2 * cx by omega,
      ← Block.put_put]
    apply Block.put_congr
    intro i hi
    rw [Block.put_outside (by omega), Nat.add_assoc]

theorem moveBoot_eq (mem : Memory)
    : moveBoot mem = Block.put (physical initSeg 0) 512 (fun i => mem (physical bootSeg 0 + i)) mem := by
  exact repMovsw_eq (by decide) (by decide) (by decide)

end Move

variable {labels : Labels} {bios : Bios} {disk : Disk} {own : Nat → Prop} {l : Loader}

theorem readIt_loads (hbios : bios.Serves disk own) (hl : AtReadIt labels l)
    (hsize : (l.var syssize).toNat < 0x8000)
    : ∃ l', l.readIt labels bios = some l' ∧ l'.ip = l.top 0 ∧ l'.sp = l.sp + 2 ∧
        Loaded labels disk own l (loadedBytes (l.var syssize)) l'.mem := by
  have hstart : Within labels disk own l (l.start labels) := ⟨0, after_start disk own hl, by omega⟩
  obtain ⟨k, hk, l', hexits, n, hafter, hn⟩ := Loop.exits_of_invariant Loader.left
    (fun l' hwithin hmore => hwithin.round hbios hl hsize hmore) hstart
  rw [(after_start disk own hl).left] at hk
  have hrun : Loop.run More (Loader.round labels bios) 2880 (l.start labels) = some l' :=
    Loop.run_eq_some_iff.mpr ⟨k, by omega, hexits⟩
  have hmore := (hafter.more_iff hbios (by omega)).not.mp hexits.not_cond
  have hall : 512 * n = loadedBytes (l.var syssize) := by
    unfold loadedBytes
    omega
  refine ⟨{ l' with ax := l'.es - sysSeg }.ret, ?_, ?_, ?_, ?_⟩
  . unfold readIt
    rw [hl.es, if_neg (by decide), hrun]
    rfl
  . have hsp : l.sp.toNat = 0x3FF2 := by
      rw [hl.sp]
      rfl
    have hsread := labels.bounds.1
    change l'.top 0 = _
    unfold top
    rw [hafter.sp, show l.sp + 2 * 0 = l.sp from BitVec.add_zero _]
    apply Halves.read_congr
    intro i hi
    rw [physical_initSeg, hsp]
    apply hafter.mem.kept
    . unfold loadBase
      omega
    . unfold Labels.Variable
      rw [physical_initSeg]
      omega
    . rw [unused_iff, hsp]
      omega
    . exact not_own hbios (by omega) (by omega)
  . change l'.sp + 2 = _
    rw [hafter.sp]
  . rw [← hall]
    exact hafter.mem

theorem size_lt_of_sparesBoot (hbios : bios.Serves disk own) (hl : AtReadIt labels l)
    (hspares : ∀ l', Reaches labels bios (l.start labels) l' → l'.More → l'.SparesBoot labels bios)
    : (l.var syssize).toNat < 0x8000 := by
  by_contra hsize
  obtain ⟨l', hreaches, hafter⟩ :=
    (after_start disk own hl).reaches_boot hbios hl (by omega) (Nat.le_of_not_lt hsize)
  have hbelow := hspares l' hreaches ((hafter.more_iff hbios (Nat.le_refl 1024)).mpr (by omega))
  have hpos := hafter.count_pos hbios hl (Nat.le_refl 1024)
  obtain ⟨-, hal, hbuffer, -⟩ := hafter.request hbios hl (Nat.le_refl 1024)
  have hfirst := hbelow 0x90000 (by
    unfold InBuffer
    rw [hbuffer, hal]
    change 0x10000 + 512 * 1024 ≤ 0x90000 ∧ 0x90000 < 0x10000 + 512 * 1024 + _
    omega)
  exact absurd hfirst (by decide)

/--
What the loader does depends on `syssize` alone: it asks for nothing that the drive cannot read, brings the disk
behind its boot sector to memory and spares itself, or it comes to read over itself.
-/
theorem readIt_exact (hbios : bios.Serves disk own) (hl : AtReadIt labels l)
    : ((l.var syssize).toNat < 0x8000 →
        (∀ l', Reaches labels bios (l.start labels) l' → l'.More → (l'.request labels bios).Reads) ∧
          ∃ l', l.readIt labels bios = some l' ∧ l'.ip = l.top 0 ∧ l'.sp = l.sp + 2 ∧
            Loaded labels disk own l (loadedBytes (l.var syssize)) l'.mem) ∧
      ((∀ l', Reaches labels bios (l.start labels) l' → l'.More → l'.SparesBoot labels bios) ↔
        (l.var syssize).toNat < 0x8000) := by
  constructor
  . intro hsize
    refine ⟨fun l' hreaches hmore => ?_, readIt_loads hbios hl hsize⟩
    exact ((Within.of_reaches hbios hl hsize hreaches).request hbios hl hsize hmore).1
  . constructor
    . exact size_lt_of_sparesBoot hbios hl
    . intro hsize l' hreaches hmore
      exact ((Within.of_reaches hbios hl hsize hreaches).request hbios hl hsize hmore).2

section Main

theorem Assembled.congr {sector sector' : Nat → Byte} (h : Assembled labels sector)
    (heq : ∀ i < 498, sector' i = sector i) : Assembled labels sector' := by
  obtain ⟨hsread, hhead, htrack⟩ := labels.bounds
  have hsectors := labels.sectors_le
  have hread : ∀ off : BitVec 16, off.toNat + 2 ≤ 498 →
      Halves.read sector' off.toNat = Halves.read sector off.toNat :=
    fun off hoff => Halves.read_congr fun i hi => heq _ (by omega)
  constructor
  . rw [hread _ (by omega), h.sread]
  . rw [hread _ (by omega), h.head]
  . rw [hread _ (by omega), h.track]
  . rw [hread _ (by omega), h.sectors]
  . rw [heq _ (by decide), h.setupSects]

theorem Loader.Pushed.print {l₀ l' : Loader} (hbios : bios.Serves disk own) (h : Pushed own l₀ [] l)
    (htop : l₀.sp = 0x4000 - 12) (hprints : l'.Prints) (hsp : l'.sp = l.sp) (hes : l'.es = l.es)
    (hmem : l'.mem = l.mem) : Pushed own l₀ [] (bios.int10 l') := by
  have hnat : l₀.sp.toNat = 0x3FF4 := by
    rw [htop]
    rfl
  have hroomy : l'.Roomy := by
    have hsp₀ := h.sp
    change l.sp.toNat + 0 = _ at hsp₀
    unfold Roomy
    rw [hsp]
    omega
  exact (h.of_eq hsp hes hmem).int10 hbios hprints hroomy (by omega)

theorem go_spec (hbios : bios.Serves disk own) (labels : Labels) (l : Loader)
    : (l.go labels bios).es = sysSeg ∧ (l.go labels bios).sp = 0x4000 - 12 - 2 ∧
      (l.go labels bios).top 0 = labels.afterReadIt ∧
      ∀ a, 0x90000 ≤ a → a < 0x90200 → (l.go labels bios).mem a = l.mem a := by
  have h₁ : Pushed own { l with di := 0x4000 - 12, sp := 0x4000 - 12 } [] (bios.int10 { l with
      di := 0x4000 - 12, sp := 0x4000 - 12, ax := 0x03#8 ++ low l.ax, bx := 0x00#8 ++ low l.bx }) := by
    refine (Pushed.refl _).print hbios rfl ?_ rfl rfl rfl
    change high (0x03#8 ++ low l.ax) ∈ _
    rw [high_append]
    decide
  unfold go
  dsimp only
  generalize bios.int10 { l with
    di := 0x4000 - 12, sp := 0x4000 - 12, ax := 0x03#8 ++ low l.ax, bx := 0x00#8 ++ low l.bx } = m₁ at *
  have h₂ : Pushed own { l with di := 0x4000 - 12, sp := 0x4000 - 12 } []
      (bios.int10 { m₁ with cx := 0xB, bx := 0x0007, bp := labels.msg1, ax := 0x1301 }) := by
    refine h₁.print hbios rfl ?_ rfl rfl rfl
    change high 0x1301 ∈ _
    decide
  generalize bios.int10 { m₁ with cx := 0xB, bx := 0x0007, bp := labels.msg1, ax := 0x1301 } = m₂ at *
  have h₃ : Pushed own { l with di := 0x4000 - 12, sp := 0x4000 - 12 } []
      (bios.int10 { m₂ with ax := 0x01#8 ++ low m₂.ax, cx := 0x30#8 ++ low m₂.cx }) := by
    refine h₂.print hbios rfl ?_ rfl rfl rfl
    change high (0x01#8 ++ low m₂.ax) ∈ _
    rw [high_append]
    decide
  generalize bios.int10 { m₂ with ax := 0x01#8 ++ low m₂.ax, cx := 0x30#8 ++ low m₂.cx } = m₃ at *
  have hsp : m₃.sp = 0x4000 - 12 := (Pushed.refl _).sp_eq h₃
  have hes : Pushed own { l with di := 0x4000 - 12, sp := 0x4000 - 12, es := sysSeg } []
      { m₃ with ax := sysSeg, es := sysSeg } := ⟨h₃.sp, rfl, trivial, h₃.kept⟩
  have hcall : Pushed own { l with di := 0x4000 - 12, sp := 0x4000 - 12, es := sysSeg } [labels.afterReadIt]
      (push labels.afterReadIt { m₃ with ax := sysSeg, es := sysSeg }) := by
    apply hes.push
    change 514 ≤ m₃.sp.toNat
    rw [hsp]
    decide
  refine ⟨rfl, ?_, hcall.top_eq (i := 0) rfl, fun a hge hlt => hcall.sector hbios hge hlt⟩
  change m₃.sp - 2 = _
  rw [hsp]

/--
From where the BIOS has left the boot sector, the loader moves it away and brings what is behind it on the disk to
memory.
-/
theorem main_loads (hbios : bios.Serves disk own)
    (hassembled : Assembled labels fun i => l.mem (physical bootSeg 0 + i))
    (hsize : (Halves.read l.mem (physical bootSeg syssize)).toNat < 0x8000)
    : ∃ l', l.main labels bios = some l' ∧
        ∀ i < loadedBytes (Halves.read l.mem (physical bootSeg syssize)),
          l'.mem (loadBase + i) = disk (512 + i) := by
  obtain ⟨hes, hsp, htop, hmem⟩ := go_spec hbios labels l.move
  have hmove : ∀ i < 512, (l.move.go labels bios).mem (0x90000 + i) = l.mem (physical bootSeg 0 + i) := by
    intro i hi
    rw [hmem _ (by omega) (by omega)]
    unfold Loader.move
    dsimp only
    rw [moveBoot_eq]
    exact Block.put_inside hi
  have hat : AtReadIt labels (l.move.go labels bios) :=
    ⟨hes, hsp, hassembled.congr fun i hi => hmove i (by omega)⟩
  have hsize' : (l.move.go labels bios).var syssize = Halves.read l.mem (physical bootSeg syssize) := by
    have hsyssize : syssize.toNat = 500 := rfl
    rw [← read_segment, ← read_sector]
    exact Halves.read_congr fun i hi => hmove _ (by omega)
  rw [← hsize'] at hsize ⊢
  obtain ⟨l', hl', hip, -, hloaded⟩ := readIt_loads hbios hat hsize
  refine ⟨l', ?_, hloaded.loaded⟩
  unfold Loader.main
  rw [hl', Option.bind_some, if_pos (hip.trans htop)]

end Main

section First

def leaveBp (l : Loader) : Loader :=
  { l.push l.bp with sp := l.sp }

/-- A BIOS that counts what it prints at `0x450`, and has the status of the drive at `0x441` -/
def firstBios (disk : Disk) : Bios where
  int10 l := { leaveBp l with mem := Function.update (leaveBp l).mem 0x450 (l.mem 0x450 + 1) }
  int13 l :=
    let first := 512 * sectorNumber l.cylinder (high l.dx).toNat (l.sector - 1)
    let buffer := physical l.es l.bx
    if Readable (low l.ax).toNat l.cylinder (high l.dx).toNat l.sector buffer then
      let mem := Block.put buffer (512 * (low l.ax).toNat) (fun i => disk (first + i)) (leaveBp l).mem
      { l with ax := 0#8 ++ low l.ax, mem := Function.update mem 0x441 0 }
    else { l with ax := 0x0100, mem := Function.update (leaveBp l).mem 0x441 1 }

def firstOwn (a : Nat) : Prop :=
  a < 0x500

theorem mem_leaveBp {a : Nat} (hroomy : l.Roomy) (ha : ¬l.Unused a) : (leaveBp l).mem a = l.mem a := by
  have hnat : (l.sp - 2).toNat = l.sp.toNat - 2 := by
    unfold Roomy at hroomy
    bv_omega
  unfold Roomy at hroomy
  rw [unused_iff] at ha
  apply Halves.write_outside
  rw [physical_initSeg]
  omega

theorem firstBios_serves (disk : Disk) : (firstBios disk).Serves disk firstOwn where
  apart a ha := by
    left
    unfold firstOwn at ha
    unfold loadBase
    omega
  int10 l _ hroomy := by
    refine ⟨rfl, rfl, fun a hown hunused => ?_⟩
    unfold firstOwn at hown
    change Function.update _ _ _ a = _
    rw [Function.update_of_ne (by omega), mem_leaveBp hroomy hunused]
  int13 l hreads hroomy hfree := by
    have hint : (firstBios disk).int13 l = { l with
        ax := 0#8 ++ low l.ax
        mem := Function.update (Block.put (physical l.es l.bx) (512 * (low l.ax).toNat)
          (fun i => disk (512 * sectorNumber l.cylinder (high l.dx).toNat (l.sector - 1) + i))
          (leaveBp l).mem) 0x441 0 } :=
      if_pos hreads.readable
    rw [hint]
    constructor
    . refine ⟨rfl, rfl, fun a hchanges hunused => ?_⟩
      obtain ⟨hown, hbuffer⟩ := not_or.mp hchanges
      unfold firstOwn at hown
      unfold InBuffer at hbuffer
      dsimp only
      rw [Function.update_of_ne (by omega), Block.put_outside (by omega), mem_leaveBp hroomy hunused]
    . intro i hi
      obtain ⟨hown, -⟩ := hfree (physical l.es l.bx + i) ⟨by omega, by omega⟩
      unfold firstOwn at hown
      dsimp only
      rw [Function.update_of_ne (by omega), Block.put_inside hi]

def firstLabels : Labels where
  sread := 0xC4
  sectors := 0x150
  msg1 := 0x152
  afterReadTrack := 0xF8
  afterReadIt := 0x4E
  sread_le := by decide
  sectors_le := by decide

def numberedDisk : Disk :=
  fun i => BitVec.ofNat 8 (i / 512)

def firstCall : Loader where
  ax := sysSeg
  cx := 0
  dx := 0
  bx := 0
  sp := 0x3FF2
  bp := firstLabels.msg1
  si := 512
  di := 0x3FF4
  es := sysSeg
  ip := 0
  mem := fun a => if 0x90000 ≤ a ∧ a < 0x90200 then if a = 0x90150 then 18 else 0 else 0xFF

/-- One segment is loaded, over memory that is not what the disk is. -/
theorem readIt_exact_first
    : ∃ l', firstCall.readIt firstLabels (firstBios numberedDisk) = some l' ∧ l'.mem 0x10000 = 1 ∧
        Loaded firstLabels numberedDisk firstOwn firstCall 0x10000 l'.mem := by
  have hcall : AtReadIt firstLabels firstCall := by
    refine ⟨rfl, rfl, ?_⟩
    constructor <;> decide
  obtain ⟨-, l', hl', -, -, hloaded⟩ := (readIt_exact (firstBios_serves numberedDisk) hcall).1 (by decide)
  exact ⟨l', hl', hloaded.loaded 0 (by decide), hloaded⟩

end First

end Bootsect

end Zeos
