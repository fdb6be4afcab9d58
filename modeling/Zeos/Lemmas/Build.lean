import Zeos.Spec.Image

/-!
`build` copies its three files one after the other, and then writes the headers over them.
-/

namespace Zeos

namespace Build

variable {p p' : Process} {n l sz pos : Nat} {name : String} {files : Files} {bytes bs out : List Byte}

def AtEnd (out : List Byte) (p : Process) : Prop :=
  p.out = ⟨out, out.length⟩

section Copy

theorem length_buf0 : (p.buf0 n).length = n := by
  simp [Process.buf0]

theorem getElem?_buf0 {i : Nat} : (p.buf0 n)[i]? = if i < n then some (p.buf i) else none := by
  unfold Process.buf0
  by_cases hi : i < n
  . rw [if_pos hi, List.getElem?_map, List.getElem?_range hi, Option.map_some]
  . rw [if_neg hi, List.getElem?_eq_none]
    rw [List.length_map, List.length_range]
    omega

theorem fst_read : (p.read l).1 = min l p.fd.length := by
  unfold Process.read
  dsimp only
  rw [List.length_take]

theorem buf_read (hl : n < l) (hn : n < p.fd.length) : some ((p.read l).2.buf n) = p.fd[n]? := by
  unfold Process.read
  dsimp only
  rw [List.getD_eq_getElem?_getD, List.getElem?_take_of_lt hl, List.getElem?_eq_getElem hn, Option.getD_some]

theorem buf0_read (hl : n ≤ l) (hn : n ≤ p.fd.length) : (p.read l).2.buf0 n = p.fd.take n := by
  apply List.ext_getElem?
  intro i
  rw [getElem?_buf0]
  by_cases hi : i < n
  . rw [if_pos hi, buf_read (by omega) (by omega), List.getElem?_take_of_lt hi]
  . rw [if_neg hi, List.getElem?_eq_none]
    rw [List.length_take]
    omega

theorem AtEnd.read (h : AtEnd out p) (l : Nat) : AtEnd out (p.read l).2 :=
  h

theorem AtEnd.setBuf (h : AtEnd out p) (i : Nat) (v : Byte) : AtEnd out (p.setBuf i v) :=
  h

theorem AtEnd.write (h : AtEnd out p) (l : Nat) : AtEnd (out ++ p.buf0 l) (p.write l) := by
  unfold AtEnd Process.write File.Output.write at *
  rw [h]
  dsimp only
  rw [File.writeAt_end, List.length_append]

theorem AtEnd.done (h : AtEnd out p) (hlen : p.fd.length = 0) : AtEnd (out ++ p.fd) p := by
  rw [List.eq_nil_of_length_eq_zero hlen, List.append_nil]
  exact h

theorem AtEnd.copyLoop {fuel : Nat} (name : String) (h : AtEnd out p) (hsz : p.fd.length = sz)
    (hfuel : sz ≤ fuel) : ∃ p', copyLoop name fuel sz p = .ok p' ∧ AtEnd (out ++ p.fd) p' := by
  induction fuel generalizing sz p out with
  | zero => exact ⟨p, rfl, h.done (by omega)⟩
  | succ fuel ih =>
    unfold Build.copyLoop
    by_cases hpos : sz > 0
    . rw [if_pos hpos]
      dsimp only
      generalize hl : (if sz > sizeofBuf then sizeofBuf else sz) = l
      have hle : l ≤ sz ∧ 0 < l := by
        unfold sizeofBuf at hl
        split at hl <;> omega
      rw [fst_read, if_neg (by omega)]
      have hrest : ((p.read l).2.write l).fd = p.fd.drop l := rfl
      have hwrite : AtEnd (out ++ p.fd.take l) ((p.read l).2.write l) := by
        have hbuf : (p.read l).2.buf0 l = p.fd.take l := buf0_read (Nat.le_refl l) (by omega)
        rw [← hbuf]
        exact (h.read l).write l
      have hlen : ((p.read l).2.write l).fd.length = sz - l := by
        rw [hrest, List.length_drop, hsz]
      obtain ⟨p', hp', hend⟩ := ih hwrite hlen (by omega)
      refine ⟨p', hp', ?_⟩
      rw [hrest, List.append_assoc, List.take_append_drop] at hend
      exact hend
    . rw [if_neg hpos]
      exact ⟨p, rfl, h.done (by omega)⟩

theorem AtEnd.copyFile (h : AtEnd out p) (hfile : files name = .ok bytes) (hlen : bytes.length < 2 ^ 32)
    : ∃ p', copyFile files name p = .ok (BitVec.ofNat 32 bytes.length, p') ∧ AtEnd (out ++ bytes) p' := by
  have hsz : (BitVec.ofNat 32 bytes.length).toNat = bytes.length := by
    rw [BitVec.toNat_ofNat, Nat.mod_eq_of_lt hlen]
  have hopen : p.openFile files name = .ok { p with fd := bytes } := by
    unfold Process.openFile
    rw [hfile]
  have hend : AtEnd out { p with fd := bytes } := h
  obtain ⟨p', hloop, hp'⟩ := hend.copyLoop name rfl (Nat.le_refl bytes.length)
  refine ⟨p', ?_, hp'⟩
  unfold Build.copyFile
  rw [hopen]
  change (Build.copyLoop name (BitVec.ofNat 32 bytes.length).toNat (BitVec.ofNat 32 bytes.length).toNat
    { p with fd := bytes }).bind _ = _
  rw [hsz, hloop]
  rfl

end Copy

section Boot

theorem bind_eq_ok {α β : Type} {x : Except String α} {f : α → Except String β} {b : β}
    (h : x >>= f = .ok b) : ∃ a, x = .ok a ∧ f a = .ok b := by
  cases x with
  | error m => cases h
  | ok a => exact ⟨a, rfl, h⟩

theorem lb_read {i : Nat} (hi : 4 * i + 3 < l) (hlen : 4 * i + 3 < p.fd.length)
    : (p.read l).2.lb i = dwordOf p.fd i := by
  have hbyte : ∀ j ≤ 4 * i + 3, (p.read l).2.buf j = p.fd.getD j 0 := by
    intro j hj
    rw [List.getD_eq_getElem?_getD, ← buf_read (l := l) (by omega) (by omega), Option.getD_some]
  unfold Process.lb dwordOf
  rw [hbyte _ (by omega), hbyte _ (by omega), hbyte _ (by omega), hbyte _ (by omega)]

def GoodHeader (bytes : List Byte) : Prop :=
  minixHeaderLen ≤ bytes.length ∧ (bytes.take hdr.length = hdr ∧ dwordOf bytes 5 = 0) ∧
    dwordOf bytes 3 = 0 ∧ dwordOf bytes 4 = 0 ∧ dwordOf bytes 7 = 0

theorem openFile_eq (hfile : files name = .ok bytes)
    : p.openFile files name = .ok { p with fd := bytes } := by
  unfold Process.openFile
  rw [hfile]

def checkHeader (name : String) (p : Process) : Except String Process :=
  if (p.read minixHeaderLen).1 ≠ minixHeaderLen then die (name ++ ": Unable to read header")
  else if (p.read minixHeaderLen).2.buf0 hdr.length ≠ hdr ∨ (p.read minixHeaderLen).2.lb 5 ≠ 0 then
    die (name ++ ": Non-Minix header")
  else if (p.read minixHeaderLen).2.lb 3 ≠ 0 then die (name ++ ": Illegal data segment")
  else if (p.read minixHeaderLen).2.lb 4 ≠ 0 then die (name ++ ": Illegal bss segment")
  else if (p.read minixHeaderLen).2.lb 7 ≠ 0 then die (name ++ ": Illegal symbol table")
  else .ok (p.read minixHeaderLen).2

theorem minixOpen_eq : minixOpen files name p = (p.openFile files name).bind (checkHeader name) := by
  rfl

theorem if_die_eq_ok {α : Type} {c : Prop} [Decidable c] {msg : String} {x : Except String α} {a : α}
    : (if c then die msg else x) = .ok a ↔ ¬c ∧ x = .ok a := by
  unfold die
  split
  next hc => simp [hc]
  next hc => simp [hc]

theorem checkHeader_eq_ok : checkHeader name p = .ok p' ↔ GoodHeader p.fd ∧ p' =
    (p.read minixHeaderLen).2 := by
  have hread : minixHeaderLen ≤ p.fd.length →
      (p.read minixHeaderLen).2.buf0 hdr.length = p.fd.take hdr.length ∧
        ∀ i < 8, (p.read minixHeaderLen).2.lb i = dwordOf p.fd i := by
    intro hlen
    have hle : hdr.length ≤ minixHeaderLen := by decide
    refine ⟨buf0_read hle (Nat.le_trans hle hlen), ?_⟩
    intro i hi
    unfold minixHeaderLen at *
    exact lb_read (by omega) (by omega)
  have hlen : (p.read minixHeaderLen).1 = minixHeaderLen ↔ minixHeaderLen ≤ p.fd.length := by
    rw [fst_read]
    omega
  unfold checkHeader GoodHeader
  simp only [if_die_eq_ok, not_or, not_not, hlen, Except.ok.injEq]
  constructor
  . rintro ⟨hle, hmagic, h3, h4, h7, rfl⟩
    obtain ⟨hbuf, hlb⟩ := hread hle
    rw [hbuf, hlb 5 (by omega)] at hmagic
    rw [hlb 3 (by omega)] at h3
    rw [hlb 4 (by omega)] at h4
    rw [hlb 7 (by omega)] at h7
    exact ⟨⟨hle, hmagic, h3, h4, h7⟩, rfl⟩
  . rintro ⟨⟨hle, hmagic, h3, h4, h7⟩, rfl⟩
    obtain ⟨hbuf, hlb⟩ := hread hle
    rw [hbuf, hlb 5 (by omega), hlb 3 (by omega), hlb 4 (by omega), hlb 7 (by omega)]
    exact ⟨hle, hmagic, h3, h4, h7, rfl⟩

def checkBoot (p : Process) : Except String Process :=
  if (p.read sizeofBuf).1 ≠ 512 then die "Boot block must be exactly 512 bytes"
  else if (p.read sizeofBuf).2.buf 510 ≠ 0x55 ∨ (p.read sizeofBuf).2.buf 511 ≠ 0xaa then
    die "Boot block hasn't got boot flag (0xAA55)"
  else .ok ((((p.read sizeofBuf).2.setBuf 508 defaultMinorRoot).setBuf 509 defaultMajorRoot).write 512)

theorem copyBoot_eq : copyBoot files name p = (minixOpen files name p).bind checkBoot := by
  rfl

theorem buf0_setBuf {i : Nat} {v : Byte} : (p.setBuf i v).buf0 n = (p.buf0 n).set i v := by
  apply List.ext_getElem?
  intro j
  rw [List.getElem?_set, getElem?_buf0, getElem?_buf0, length_buf0]
  unfold Process.setBuf
  dsimp only
  rw [Function.update_apply]
  by_cases hij : j = i
  . subst hij
    rw [if_pos rfl, if_pos rfl]
  . rw [if_neg hij, if_neg (Ne.symm hij)]

def rootDev (sector : List Byte) : List Byte :=
  (sector.set 508 defaultMinorRoot).set 509 defaultMajorRoot

theorem checkBoot_eq_ok
    : (∃ p', checkBoot p = .ok p') ↔ p.fd.length = 512 ∧ p.fd[510]? = some 0x55 ∧ p.fd[511]? = some 0xaa := by
  have hlen : (p.read sizeofBuf).1 = 512 ↔ p.fd.length = 512 := by
    rw [fst_read]
    unfold sizeofBuf
    omega
  have hflag : p.fd.length = 512 → some ((p.read sizeofBuf).2.buf 510) = p.fd[510]? ∧
      some ((p.read sizeofBuf).2.buf 511) = p.fd[511]? := by
    intro hlen
    exact ⟨buf_read (by decide) (by omega), buf_read (by decide) (by omega)⟩
  unfold checkBoot
  simp only [if_die_eq_ok, not_or, not_not, hlen, exists_and_left, Except.ok.injEq, exists_eq', and_true]
  constructor
  . rintro ⟨hlen, h510, h511⟩
    obtain ⟨h510', h511'⟩ := hflag hlen
    exact ⟨hlen, by rw [← h510', h510], by rw [← h511', h511]⟩
  . rintro ⟨hlen, h510, h511⟩
    obtain ⟨h510', h511'⟩ := hflag hlen
    exact ⟨hlen, Option.some.inj (h510'.trans h510), Option.some.inj (h511'.trans h511)⟩

theorem atEnd_checkBoot (hout : AtEnd out p) (h : checkBoot p = .ok p') : AtEnd (out ++ rootDev p.fd) p' := by
  unfold checkBoot at h
  simp only [if_die_eq_ok, not_or, not_not, Except.ok.injEq] at h
  obtain ⟨hlen, -, rfl⟩ := h
  rw [fst_read] at hlen
  have hfd : p.fd.length = 512 := by
    unfold sizeofBuf at hlen
    omega
  have hbuf : (((p.read sizeofBuf).2.setBuf 508 defaultMinorRoot).setBuf 509 defaultMajorRoot).buf0 512 =
      rootDev p.fd := by
    rw [buf0_setBuf, buf0_setBuf, buf0_read (by decide) (by omega), ← hfd, List.take_length]
    rfl
  rw [← hbuf]
  exact (((hout.read sizeofBuf).setBuf 508 defaultMinorRoot).setBuf 509 defaultMajorRoot).write 512

theorem copyBoot_of_file (hfile : files name = .ok bytes)
    : copyBoot files name p = (checkHeader name { p with fd := bytes }).bind checkBoot := by
  rw [copyBoot_eq, minixOpen_eq, openFile_eq hfile]
  rfl

theorem bootFile_iff : BootFile bytes ↔ GoodHeader bytes ∧ (bytes.drop minixHeaderLen).length = 512 ∧
    (bytes.drop minixHeaderLen)[510]? = some 0x55 ∧ (bytes.drop minixHeaderLen)[511]? = some 0xaa := by
  have hflag : bytes.length = minixHeaderLen + 512 →
      (bytes.drop (minixHeaderLen + 510) = [0x55, 0xaa] ↔
        (bytes.drop minixHeaderLen)[510]? = some 0x55 ∧ (bytes.drop minixHeaderLen)[511]? = some 0xaa) := by
    intro hlen
    rw [← List.drop_drop]
    generalize hrest : (bytes.drop minixHeaderLen).drop 510 = rest
    have hlen : rest.length = 2 := by
      rw [← hrest, List.length_drop, List.length_drop]
      omega
    have hget : ∀ i, (bytes.drop minixHeaderLen)[510 + i]? = rest[i]? := by
      intro i
      rw [← hrest]
      exact List.getElem?_drop.symm
    have h0 := hget 0
    have h1 := hget 1
    match rest, hlen with
    | [c, d], _ =>
      rw [h0, h1]
      simp
  rw [List.length_drop]
  constructor
  . intro h
    have hlen := h.length
    exact ⟨⟨by omega, ⟨h.magic, h.entry⟩, h.data, h.bss, h.symbols⟩, by omega, (hflag hlen).mp h.flag⟩
  . rintro ⟨⟨hle, ⟨hmagic, hentry⟩, hdata, hbss, hsymbols⟩, hlen, hend⟩
    exact ⟨by omega, hmagic, hdata, hbss, hentry, hsymbols, (hflag (by omega)).mpr hend⟩

theorem copyBoot_eq_ok (hfile : files name = .ok bytes)
    : (∃ p', copyBoot files name p = .ok p') ↔ BootFile bytes := by
  rw [copyBoot_of_file hfile, bootFile_iff]
  constructor
  . rintro ⟨p', hp'⟩
    obtain ⟨q, hq, hcheck⟩ := bind_eq_ok hp'
    obtain ⟨hheader, rfl⟩ := checkHeader_eq_ok.mp hq
    exact ⟨hheader, checkBoot_eq_ok.mp ⟨p', hcheck⟩⟩
  . rintro ⟨hheader, hsector⟩
    have hq : checkHeader name { p with fd := bytes } = .ok _ := checkHeader_eq_ok.mpr ⟨hheader, rfl⟩
    rw [hq]
    exact checkBoot_eq_ok.mpr hsector

theorem atEnd_copyBoot (hout : AtEnd [] p) (hfile : files name = .ok bytes)
    (h : copyBoot files name p = .ok p') : AtEnd (rootDev (bytes.drop minixHeaderLen)) p' := by
  rw [copyBoot_of_file hfile] at h
  obtain ⟨q, hq, hcheck⟩ := bind_eq_ok h
  obtain ⟨-, rfl⟩ := checkHeader_eq_ok.mp hq
  have hend : AtEnd [] (({ p with fd := bytes } : Process).read minixHeaderLen).2 := hout
  exact atEnd_checkBoot hend hcheck

end Boot

section Sizes

def sizeBytes (v : BitVec 32) : List Byte :=
  [(v &&& 0xff).setWidth 8, ((v >>> 8) &&& 0xff).setWidth 8, ((v >>> 16) &&& 0xff).setWidth 8, 0]

theorem bytes_writeSize {v : BitVec 32} (pos : Nat)
    : (writeSize pos v p).out.bytes = File.writeAt 0 pos (sizeBytes v) p.out.bytes := by
  have hbuf : ∀ q : Process, (((((q.setBuf 0 ((v &&& 0xff).setWidth 8)).setBuf 1
      (((v >>> 8) &&& 0xff).setWidth 8)).setBuf 2 (((v >>> 16) &&& 0xff).setWidth 8)).setBuf 3 0).buf0 4) =
      sizeBytes v := by
    intro q
    simp only [buf0_setBuf]
    rfl
  unfold writeSize
  dsimp only
  unfold Process.write
  rw [hbuf]
  rfl

def imBytes (im : BitVec 32) : List Byte :=
  [(im &&& 0xff).setWidth 8, ((im >>> 8) &&& 0xff).setWidth 8]

def putHeaders (s u : BitVec 32) (file : List Byte) : List Byte :=
  File.writeAt 0 520 (sizeBytes 0x7E2B) (File.writeAt 0 516 (sizeBytes u)
    (File.writeAt 0 512 (sizeBytes s) (File.writeAt 0 500 (imBytes ((s + u + 15) / 16)) file)))

theorem bytes_writeSizes {s u : BitVec 32} : (writeSizes s u p).out.bytes = putHeaders s u p.out.bytes := by
  have hbuf : ∀ (q : Process) (v w : Byte), ((q.setBuf 0 v).setBuf 1 w).buf0 2 = [v, w] := by
    intro q v w
    simp only [buf0_setBuf]
    rfl
  unfold writeSizes
  dsimp only
  rw [bytes_writeSize, bytes_writeSize, bytes_writeSize]
  unfold Process.write
  rw [hbuf]
  rfl

theorem toNat_lowByte (v : BitVec 32) (k : Nat)
    : (((v >>> k) &&& 0xff).setWidth 8 : Byte).toNat = v.toNat / 2 ^ k % 256 := by
  rw [BitVec.toNat_setWidth, BitVec.toNat_and, BitVec.toNat_ushiftRight, Nat.shiftRight_eq_div_pow]
  change (_ &&& 2 ^ 8 - 1) % 2 ^ 8 = _
  rw [Nat.and_two_pow_sub_one_eq_mod]
  omega

theorem valueOf_sizeBytes {v : BitVec 32} (h : v.toNat < 2 ^ 24) : valueOf (sizeBytes v) = v.toNat := by
  have h0 := toNat_lowByte v 0
  have h8 := toNat_lowByte v 8
  have h16 := toNat_lowByte v 16
  rw [BitVec.ushiftRight_zero] at h0
  unfold valueOf sizeBytes
  simp only [List.foldr_cons, List.foldr_nil, h0, h8, h16]
  change _ + 256 * (_ + 256 * (_ + 256 * (0 + 256 * 0))) = _
  omega

theorem valueOf_imBytes {v : BitVec 32} (h : v.toNat < 2 ^ 16) : valueOf (imBytes v) = v.toNat := by
  have h0 := toNat_lowByte v 0
  have h8 := toNat_lowByte v 8
  rw [BitVec.ushiftRight_zero] at h0
  unfold valueOf imBytes
  simp only [List.foldr_cons, List.foldr_nil, h0, h8]
  omega

theorem toNat_imSize {s u : BitVec 32} (h : s.toNat + u.toNat ≤ 0xFFFF0)
    : ((s + u + 15) / 16).toNat = (s.toNat + u.toNat + 15) / 16 := by
  have hsum : (s + u + 15).toNat = s.toNat + u.toNat + 15 := by
    rw [BitVec.toNat_add, BitVec.toNat_add]
    change ((s.toNat + u.toNat) % 2 ^ 32 + 15) % 2 ^ 32 = _
    omega
  rw [BitVec.toNat_udiv, hsum]
  rfl

section Headers

variable {s u : BitVec 32} {file : List Byte} {i : Nat}

theorem length_write (pos : Nat) (bs : List Byte) (h : 524 ≤ file.length) (hpos : pos + bs.length ≤ 524)
    : 524 ≤ (File.writeAt 0 pos bs file).length ∧ (File.writeAt 0 pos bs file).length = file.length := by
  have hlen : (File.writeAt 0 pos bs file).length = file.length := File.length_writeAt (by omega)
  exact ⟨by omega, hlen⟩

structure HasHeaders (s u : BitVec 32) (file image : List Byte) : Prop where
  length : image.length = file.length
  im : File.slice 500 2 image = imBytes ((s + u + 15) / 16)
  sys : File.slice 512 4 image = sizeBytes s
  usr : File.slice 516 4 image = sizeBytes u
  rdtr : File.slice 520 4 image = sizeBytes 0x7E2B
  kept : ∀ i, i < 500 ∨ 502 ≤ i ∧ i < 512 ∨ 524 ≤ i → image[i]? = file[i]?

theorem hasHeaders_putHeaders (s u : BitVec 32) (h : 524 ≤ file.length)
    : HasHeaders s u file (putHeaders s u file) := by
  unfold putHeaders
  generalize him : imBytes ((s + u + 15) / 16) = im
  generalize hbs : sizeBytes s = bs
  generalize hbu : sizeBytes u = bu
  generalize hbr : sizeBytes 0x7E2B = br
  have hlen : im.length = 2 := by
    rw [← him]
    rfl
  have hs : bs.length = 4 := by
    rw [← hbs]
    rfl
  have hu : bu.length = 4 := by
    rw [← hbu]
    rfl
  have hr : br.length = 4 := by
    rw [← hbr]
    rfl
  obtain ⟨h1, hlen1⟩ := length_write 500 im h (by omega)
  obtain ⟨h2, hlen2⟩ := length_write 512 bs h1 (by omega)
  obtain ⟨h3, hlen3⟩ := length_write 516 bu h2 (by omega)
  obtain ⟨h4, hlen4⟩ := length_write 520 br h3 (by omega)
  constructor
  . omega
  . rw [File.slice_writeAt_of_disjoint (by omega) (by omega),
      File.slice_writeAt_of_disjoint (by omega) (by omega),
      File.slice_writeAt_of_disjoint (by omega) (by omega), ← hlen, File.slice_writeAt (by omega), him]
  . rw [File.slice_writeAt_of_disjoint (by omega) (by omega),
      File.slice_writeAt_of_disjoint (by omega) (by omega), ← hs, File.slice_writeAt (by omega), hbs]
  . rw [File.slice_writeAt_of_disjoint (by omega) (by omega), ← hu, File.slice_writeAt (by omega), hbu]
  . rw [← hr, File.slice_writeAt (by omega), hbr]
  . intro i hi
    rw [File.getElem?_writeAt (by omega), if_neg (by omega), File.getElem?_writeAt (by omega), if_neg (by omega),
      File.getElem?_writeAt (by omega), if_neg (by omega), File.getElem?_writeAt (by omega), if_neg (by omega)]

end Headers

end Sizes

section Main

variable {bootsect system user : String} {boot sys usr image : List Byte}

theorem length_rootDev (sector : List Byte) : (rootDev sector).length = sector.length := by
  unfold rootDev
  rw [List.length_set, List.length_set]

theorem getElem?_rootDev {sector : List Byte} {i : Nat} (h : i ≠ 508 ∧ i ≠ 509)
    : (rootDev sector)[i]? = sector[i]? := by
  unfold rootDev
  rw [List.getElem?_set_ne h.2.symm, List.getElem?_set_ne h.1.symm]

theorem drop_eq_slice {l : List Byte} (n : Nat) : l.drop n = File.slice n (l.length - n) l := by
  unfold File.slice
  rw [List.take_of_length_le (Nat.le_of_eq List.length_drop)]

theorem getElem?_parts (sys usr : List Byte) {sector : List Byte} (hsector : sector.length = 512) (i : Nat)
    : (i < 512 → (sector ++ sys ++ usr)[i]? = sector[i]?) ∧
      (i < sys.length → (sector ++ sys ++ usr)[512 + i]? = sys[i]?) ∧
      (sector ++ sys ++ usr)[512 + sys.length + i]? = usr[i]? := by
  refine ⟨?_, ?_, ?_⟩
  . intro hi
    rw [List.append_assoc, List.getElem?_append_left (by omega)]
  . intro hi
    rw [List.append_assoc, List.getElem?_append_right (by omega), hsector, Nat.add_sub_cancel_left,
      List.getElem?_append_left hi]
  . rw [List.getElem?_append_right (by rw [List.length_append]; omega), List.length_append, hsector,
      Nat.add_sub_cancel_left]

theorem HasHeaders.isImage {sector : List Byte} (h : HasHeaders (BitVec.ofNat 32 sys.length)
      (BitVec.ofNat 32 usr.length) (sector ++ sys ++ usr) image)
    (hsector : sector.length = 512) (hboot : ∀ i, i ≠ 508 ∧ i ≠ 509 → sector[i]? = boot[minixHeaderLen + i]?)
    (hsys : 12 ≤ sys.length) (htotal : sys.length + usr.length ≤ 0xFFFF0) : Image boot sys usr image := by
  have hs : (BitVec.ofNat 32 sys.length).toNat = sys.length := by
    rw [BitVec.toNat_ofNat]
    omega
  have hu : (BitVec.ofNat 32 usr.length).toNat = usr.length := by
    rw [BitVec.toNat_ofNat]
    omega
  have himSize := toNat_imSize (s := BitVec.ofNat 32 sys.length) (u := BitVec.ofNat 32 usr.length) (by omega)
  have hparts := getElem?_parts sys usr hsector
  constructor
  . rw [h.length, List.length_append, List.length_append, hsector]
  . intro i hi hpatched
    simp only [patched, List.mem_cons, List.not_mem_nil, or_false, not_or] at hpatched
    rw [h.kept i (by omega), (hparts i).1 hi, hboot i (by omega)]
  . unfold numberAt
    rw [h.im, valueOf_imBytes (by omega), himSize, hs, hu]
  . unfold numberAt
    rw [h.sys, valueOf_sizeBytes (by omega), hs]
  . unfold numberAt
    rw [h.usr, valueOf_sizeBytes (by omega), hu]
  . unfold numberAt
    rw [h.rdtr]
    rfl
  . rw [drop_eq_slice]
    apply File.slice_eq
    intro i hi
    rw [h.kept _ (by omega), Nat.add_assoc, (hparts (12 + i)).2.1 (by omega)]
  . have htake : File.slice 0 usr.length usr = usr := by
      unfold File.slice
      rw [List.drop_zero, List.take_length]
    apply Eq.trans _ htake
    apply File.slice_eq
    intro i hi
    rw [h.kept _ (by omega), (hparts i).2.2, Nat.zero_add]

theorem main_of_copyBoot {p : Process} (hsys : files system = .ok sys) (husr : files user = .ok usr)
    (htotal : sys.length + usr.length ≤ 0xFFFF0) (hend : AtEnd out p)
    (hboot : copyBoot files bootsect { buf := fun _ => 0, fd := [], out := .empty } = .ok p)
    : main files [bootsect, system, user] =
        .ok (putHeaders (BitVec.ofNat 32 sys.length) (BitVec.ofNat 32 usr.length) (out ++ sys ++ usr)) := by
  obtain ⟨p', hp', hend'⟩ := hend.copyFile hsys (by omega)
  obtain ⟨p'', hp'', hend''⟩ := hend'.copyFile husr (by omega)
  change (copyBoot files bootsect { buf := fun _ => 0, fd := [], out := .empty }).bind (fun p =>
    (copyFile files system p).bind fun x => (copyFile files user x.2).bind fun y =>
      .ok (writeSizes x.1 y.1 y.2).out.bytes) = _
  rw [hboot]
  change ((copyFile files system p).bind fun x => (copyFile files user x.2).bind fun y =>
    .ok (writeSizes x.1 y.1 y.2).out.bytes) = _
  rw [hp']
  change ((copyFile files user p').bind fun y => .ok (writeSizes _ y.1 y.2).out.bytes) = _
  rw [hp'']
  change Except.ok (writeSizes _ _ p'').out.bytes = _
  rw [bytes_writeSizes, hend'']

theorem bootFile_of_main (hboot : files bootsect = .ok boot)
    (himage : main files [bootsect, system, user] = .ok image)
    : BootFile boot ∧ ∃ p, AtEnd (rootDev (boot.drop minixHeaderLen)) p ∧
        copyBoot files bootsect { buf := fun _ => 0, fd := [], out := .empty } = .ok p := by
  have hempty : AtEnd [] { buf := fun _ => 0, fd := [], out := .empty } := rfl
  obtain ⟨p, hp, -⟩ := bind_eq_ok himage
  exact ⟨(copyBoot_eq_ok hboot).mp ⟨p, hp⟩, p, atEnd_copyBoot hempty hboot hp, hp⟩

theorem exists_main (hboot : files bootsect = .ok boot) (hsys : files system = .ok sys)
    (husr : files user = .ok usr) (htotal : sys.length + usr.length ≤ 0xFFFF0) (hfile : BootFile boot)
    : ∃ image, main files [bootsect, system, user] = .ok image := by
  have hempty : AtEnd [] { buf := fun _ => 0, fd := [], out := .empty } := rfl
  obtain ⟨p, hp⟩ := (copyBoot_eq_ok hboot).mpr hfile
  exact ⟨_, main_of_copyBoot hsys husr htotal (atEnd_copyBoot hempty hboot hp) hp⟩

theorem image_of_main (hboot : files bootsect = .ok boot) (hsys : files system = .ok sys)
    (husr : files user = .ok usr) (hheader : 12 ≤ sys.length) (htotal : sys.length + usr.length ≤ 0xFFFF0)
    (himage : main files [bootsect, system, user] = .ok image) : Image boot sys usr image := by
  obtain ⟨hfile, p, hend, hp⟩ := bootFile_of_main hboot himage
  rw [main_of_copyBoot hsys husr htotal hend hp] at himage
  have himage := Except.ok.inj himage
  have hlen : (rootDev (boot.drop minixHeaderLen)).length = 512 := by
    rw [length_rootDev, List.length_drop, hfile.length, Nat.add_sub_cancel_left]
  have hfile' : 524 ≤ (rootDev (boot.drop minixHeaderLen) ++ sys ++ usr).length := by
    rw [List.length_append, List.length_append]
    omega
  have hheaders := hasHeaders_putHeaders (BitVec.ofNat 32 sys.length) (BitVec.ofNat 32 usr.length) hfile'
  rw [himage] at hheaders
  refine hheaders.isImage hlen ?_ hheader htotal
  intro i hi
  rw [getElem?_rootDev hi, List.getElem?_drop]

/--
`build` accepts the boot sectors that are well formed, and no others, and what it writes then is an image of the
two programs.
-/
theorem main_image (hboot : files bootsect = .ok boot) (hsys : files system = .ok sys)
    (husr : files user = .ok usr) (hheader : 12 ≤ sys.length) (htotal : sys.length + usr.length ≤ 0xFFFF0)
    : ((∃ image, main files [bootsect, system, user] = .ok image) ↔ BootFile boot) ∧
      ∀ image, main files [bootsect, system, user] = .ok image → Image boot sys usr image := by
  constructor
  . constructor
    . rintro ⟨image, himage⟩
      exact (bootFile_of_main hboot himage).1
    . exact exists_main hboot hsys husr htotal
  . intro image himage
    exact image_of_main hboot hsys husr hheader htotal himage

def firstBoot : List Byte :=
  hdr ++ List.replicate 24 0 ++ List.replicate 510 0x90 ++ [0x55, 0xaa]

def firstSystem : List Byte :=
  List.replicate 16 0x18

def firstUser : List Byte :=
  [0xEB, 0xFE]

def firstFiles : Files := fun name =>
  if name = "bootsect" then .ok firstBoot
  else if name = "system.out" then .ok firstSystem
  else if name = "user.out" then .ok firstUser
  else .error "No such file or directory"

theorem bootFile_first : BootFile firstBoot := by
  constructor <;> decide +kernel

theorem firstFiles_eq : firstFiles "bootsect" = .ok firstBoot ∧ firstFiles "system.out" = .ok firstSystem ∧
    firstFiles "user.out" = .ok firstUser :=
  ⟨rfl, rfl, rfl⟩

theorem main_image_first
    : ∃ image, main firstFiles ["bootsect", "system.out", "user.out"] = .ok image ∧
        Image firstBoot firstSystem firstUser image := by
  obtain ⟨hboot, hsys, husr⟩ := firstFiles_eq
  obtain ⟨haccepts, himage⟩ := main_image hboot hsys husr (by decide) (by decide)
  obtain ⟨image, h⟩ := haccepts.mpr bootFile_first
  exact ⟨image, h, himage image h⟩

end Main

end Build

end Zeos
