import Zeos.Impl.Bootsect

/-!
What the boot sector relies on the BIOS for, and what `read_it` is for: the sectors behind the boot sector, in
their order, from `0x10000` on.
-/

namespace Zeos

namespace Bootsect

def loadBase : Nat :=
  0x10000

section Disk

abbrev Disk := Nat → Byte

def heads : Nat :=
  2

def cylinders : Nat :=
  80

/--
What the drive can read at once: sectors of one track, to memory that does not cross a boundary of 64 kB.
-/
def Readable (n cylinder head sector buffer : Nat) : Prop :=
  1 ≤ n ∧ cylinder < cylinders ∧ head < heads ∧ 1 ≤ sector ∧ sector - 1 + n ≤ secPista ∧
    buffer / 0x10000 = (buffer + 512 * n - 1) / 0x10000

instance (n cylinder head sector buffer : Nat) : Decidable (Readable n cylinder head sector buffer) :=
  inferInstanceAs (Decidable (_ ∧ _))

/-- The sectors are counted along a track, then over the sides, then over the cylinders. -/
def sectorNumber (cylinder head sector : Nat) : Nat :=
  (cylinder * heads + head) * secPista + sector

end Disk

section Bios

namespace Loader

/-- The unused part of the stack, which goes down to the end of the boot sector -/
def Unused (l : Loader) (a : Nat) : Prop :=
  physical initSeg 512 ≤ a ∧ a < physical initSeg l.sp

/-- There are 4 kB of stack for the BIOS. -/
def Roomy (l : Loader) : Prop :=
  512 + 4096 ≤ l.sp.toNat

/-- The services of `int 0x10` that set the shape of the cursor, read its position and print -/
def Prints (l : Loader) : Prop :=
  high l.ax ∈ [0x01, 0x03, 0x0e, 0x13]

def cylinder (l : Loader) : Nat :=
  (high l.cx).toNat + 256 * (low l.cx >>> 6).toNat

def sector (l : Loader) : Nat :=
  (low l.cx &&& 0x3f).toNat

def InBuffer (l : Loader) (a : Nat) : Prop :=
  physical l.es l.bx ≤ a ∧ a < physical l.es l.bx + 512 * (low l.ax).toNat

structure Reads (l : Loader) : Prop where
  service : high l.ax = 2
  drive : low l.dx = 0
  readable : Readable (low l.ax).toNat l.cylinder (high l.dx).toNat l.sector (physical l.es l.bx)

def Read (l : Loader) (disk : Disk) (mem : Memory) : Prop :=
  ∀ i < 512 * (low l.ax).toNat, mem (physical l.es l.bx + i) =
    disk (512 * sectorNumber l.cylinder (high l.dx).toNat (l.sector - 1) + i)

/-- After an `int` that changes no memory but the places `changes` and the unused stack -/
structure Serviced (changes : Nat → Prop) (l l' : Loader) : Prop where
  sp : l'.sp = l.sp
  es : l'.es = l.es
  kept : ∀ a, ¬changes a → ¬l.Unused a → l'.mem a = l.mem a

end Loader

/--
The BIOS has the memory `own` to itself, uses the stack of its caller, prints, and reads the disk. It may change
all other registers.
-/
structure Bios.Serves (bios : Bios) (disk : Disk) (own : Nat → Prop) : Prop where
  apart : ∀ a, own a → a < loadBase ∨ physical initSeg 0x4000 ≤ a
  int10 : ∀ l : Loader, l.Prints → l.Roomy → Loader.Serviced own l (bios.int10 l)
  int13 : ∀ l : Loader, l.Reads → l.Roomy → (∀ a, l.InBuffer a → ¬own a ∧ ¬l.Unused a) →
    Loader.Serviced (fun a => own a ∨ l.InBuffer a) l (bios.int13 l) ∧ l.Read disk (bios.int13 l).mem

end Bios

/-- The variables of the boot sector, as it has been assembled -/
structure Assembled (labels : Labels) (sector : Nat → Byte) : Prop where
  sread : Halves.read sector labels.sread.toNat = 0
  head : Halves.read sector labels.head.toNat = 0
  track : Halves.read sector labels.track.toNat = 0
  sectors : Halves.read sector labels.sectors.toNat = BitVec.ofNat 16 secPista
  setupSects : sector setupSects.toNat = setupSecs

def Labels.Variable (labels : Labels) (a : Nat) : Prop :=
  physical initSeg labels.sread ≤ a ∧ a < physical initSeg labels.sread + 6

/-- `read_it` has been called, and the boot sector is at `INITSEG`. -/
structure AtReadIt (labels : Labels) (l : Loader) : Prop where
  es : l.es = sysSeg
  sp : l.sp = 0x4000 - 12 - 2
  assembled : Assembled labels fun i => l.mem (physical initSeg 0 + i)

/-- Segments of 64 kB are loaded as a whole, up to the one that `syssize` ends in. -/
def loadedBytes (syssize : BitVec 16) : Nat :=
  0x10000 * (syssize.toNat / 0x1000 + 1)

/--
The disk behind its boot sector is in memory. There is nothing else new, but for the three variables, the part
of the stack that `l` leaves unused and what the BIOS has to itself.
-/
structure Loaded (labels : Labels) (disk : Disk) (own : Nat → Prop) (l : Loader) (n : Nat) (mem : Memory)
    : Prop where
  loaded : ∀ i < n, mem (loadBase + i) = disk (512 + i)
  kept : ∀ a, a < loadBase ∨ loadBase + n ≤ a → ¬labels.Variable a → ¬l.Unused a → ¬own a → mem a = l.mem a

namespace Loader

inductive Reaches (labels : Labels) (bios : Bios) : Loader → Loader → Prop
  | refl {l : Loader} : Reaches labels bios l l
  | round {l l' l'' : Loader} (h : Reaches labels bios l l') (hmore : l'.More)
      (hround : l'.round labels bios = some l'') : Reaches labels bios l l''

def request (labels : Labels) (bios : Bios) (l : Loader) : Loader :=
  (l.callReadTrack labels).toInt13 labels bios

/-- The next read stays below the boot sector, which is at `INITSEG`. -/
def SparesBoot (labels : Labels) (bios : Bios) (l : Loader) : Prop :=
  ∀ a, (l.request labels bios).InBuffer a → a < physical initSeg 0

structure After (labels : Labels) (disk : Disk) (own : Nat → Prop) (l₀ : Loader) (n : Nat) (l : Loader)
    : Prop where
  sp : l.sp = l₀.sp
  mem : Loaded labels disk own l₀ (512 * n) l.mem
  es : l.es.toNat = 0x1000 + 0x1000 * (n / 128)
  bx : l.bx.toNat = 512 * (n % 128)
  sread : (l.var labels.sread).toNat < secPista
  head : (l.var labels.head).toNat < heads
  place : sectorNumber (l.var labels.track).toNat (l.var labels.head).toNat (l.var labels.sread).toNat = n + 1

end Loader

end Bootsect

end Zeos
