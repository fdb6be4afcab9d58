import Zeos.Lib.Halves
import Zeos.Lib.Loop
import Zeos.Impl.Types

/-!
`bootsect.S`, as far as it moves itself and loads the system, in real mode. The BIOS is a parameter. The way to
protected mode that follows is left out.
-/

namespace Zeos

namespace Bootsect

abbrev Memory := Halves.Memory

def secPista : Nat :=
  18

def setupSecs : Byte :=
  0

def bootSeg : BitVec 16 :=
  0x07C0

def initSeg : BitVec 16 :=
  0x9000

def sysSeg : BitVec 16 :=
  0x1000

def physical (seg off : BitVec 16) : Nat :=
  16 * seg.toNat + off.toNat

section Move

def repMovsw (ds es : BitVec 16) (cx : Nat) (si di : BitVec 16) (mem : Memory) : Memory :=
  match cx with
  | 0 => mem
  | cx + 1 =>
    let word := fun i => mem (physical ds si + i)
    repMovsw ds es cx (si + 2) (di + 2) (Block.put (physical es di) 2 word mem)

/-- The begin of `_main`: the boot sector is moved from `0x07C00` to `0x90000`. -/
def moveBoot (mem : Memory) : Memory :=
  repMovsw bootSeg initSeg 256 0 0 mem

end Move

section Labels

/--
The offsets in the boot sector that depend on how long the code is: the three variables of `read_it` one after
the other, `sectors` and `msg1` behind it, all before the table at 435, and where calls return.
-/
structure Labels where
  sread : BitVec 16
  sectors : BitVec 16
  msg1 : BitVec 16
  /-- In `ok2_read`, after the call of `read_track` -/
  afterReadTrack : BitVec 16
  /-- In `go`, after the call of `read_it` -/
  afterReadIt : BitVec 16
  sread_le : sread.toNat + 6 ≤ sectors.toNat
  sectors_le : sectors.toNat + 2 ≤ 435

def Labels.head (labels : Labels) : BitVec 16 :=
  labels.sread + 2

def Labels.track (labels : Labels) : BitVec 16 :=
  labels.sread + 4

def setupSects : BitVec 16 :=
  497

def syssize : BitVec 16 :=
  500

end Labels

def low (r : BitVec 16) : Byte :=
  r.extractLsb' 0 8

def high (r : BitVec 16) : Byte :=
  r.extractLsb' 8 8

/-- The registers and the memory. `ds` and `ss` are `INITSEG` from `go` on, `ip` is where the last `ret` led. -/
structure Loader where
  ax : BitVec 16
  cx : BitVec 16
  dx : BitVec 16
  bx : BitVec 16
  sp : BitVec 16
  bp : BitVec 16
  si : BitVec 16
  di : BitVec 16
  es : BitVec 16
  ip : BitVec 16
  mem : Memory

structure Bios where
  int10 : Loader → Loader
  int13 : Loader → Loader

namespace Loader

section Instructions

def var (off : BitVec 16) (l : Loader) : BitVec 16 :=
  Halves.read l.mem (physical initSeg off)

def setVar (off v : BitVec 16) (l : Loader) : Loader :=
  { l with mem := Halves.write (physical initSeg off) v l.mem }

def push (v : BitVec 16) (l : Loader) : Loader :=
  { l with sp := l.sp - 2, mem := Halves.write (physical initSeg (l.sp - 2)) v l.mem }

def pushes (vs : List (BitVec 16)) (l : Loader) : Loader :=
  vs.foldl (fun l v => l.push v) l

def pusha (l : Loader) : Loader :=
  l.pushes [l.ax, l.cx, l.dx, l.bx, l.sp, l.bp, l.si, l.di]

def top (i : BitVec 16) (l : Loader) : BitVec 16 :=
  Halves.read l.mem (physical initSeg (l.sp + 2 * i))

-- The word of `sp` is skipped.
def popa (l : Loader) : Loader :=
  { l with
    di := l.top 0, si := l.top 1, bp := l.top 2, bx := l.top 4, dx := l.top 5, cx := l.top 6, ax := l.top 7
    sp := l.sp + 16 }

def ret (l : Loader) : Loader :=
  { l with ip := l.top 0, sp := l.sp + 2 }

end Instructions

section ReadTrack

def printDot (bios : Bios) (l : Loader) : Loader :=
  (bios.int10 { l.pusha with ax := 0x0e2e, bx := 7 }).popa

def int13Args (labels : Labels) (l : Loader) : Loader :=
  let l := { l with dx := l.var labels.track, cx := l.var labels.sread + 1 }
  let l := { l with cx := low l.dx ++ low l.cx, dx := l.var labels.head }
  { l with dx := (low l.dx ++ low l.dx) &&& 0x0100, ax := 2#8 ++ low l.ax }

/-- `read_track` up to `int 0x13` -/
def toInt13 (labels : Labels) (bios : Bios) (l : Loader) : Loader :=
  let l := (l.pusha.printDot bios).int13Args labels
  l.pushes [l.dx, l.cx, l.bx, l.ax]

-- The carry that `int 0x13` sets when it fails is not looked at.
def readTrack (labels : Labels) (bios : Bios) (l : Loader) : Loader :=
  let l := bios.int13 (l.toInt13 labels bios)
  { l with sp := l.sp + 8 }.popa.ret

end ReadTrack

section ReadIt

/-- `rp_read`: there is more to load. -/
def More (l : Loader) : Prop :=
  l.es - sysSeg ≤ l.var syssize

instance : DecidablePred More :=
  fun l => inferInstanceAs (Decidable (l.es - sysSeg ≤ l.var syssize))

/-- `ok1_read`: `ax` becomes how many sectors to read. -/
def ok1Read (labels : Labels) (l : Loader) : Loader :=
  let ax := l.var labels.sectors - l.var labels.sread
  let cx := ax <<< 9
  -- `jnc` and `je` after the addition
  if cx.toNat + l.bx.toNat < 2 ^ 16 ∨ cx + l.bx = 0 then { l with ax := ax, cx := cx + l.bx }
  else { l with ax := (0 - l.bx) >>> 9, cx := cx + l.bx }

def nextSide (labels : Labels) (l : Loader) : Loader :=
  let ax := 1 - l.var labels.head
  let l := if ax ≠ 0 then l else l.setVar labels.track (l.var labels.track + 1)
  { l.setVar labels.head ax with ax := 0 }

/-- `ok2_read` after `read_track`, up to the first line of `ok3_read`: where to go on on the disk -/
def nextPlace (labels : Labels) (l : Loader) : Loader :=
  let ax := l.ax + l.var labels.sread
  let next := { l with cx := l.ax, ax := ax }
  let next := if ax ≠ l.var labels.sectors then next else next.nextSide labels
  next.setVar labels.sread next.ax

/-- The rest of `ok3_read`: where to go on in memory. At the end of a segment the next one follows. -/
def nextBuffer (l : Loader) : Loader :=
  let l := { l with cx := l.cx <<< 9 }
  if l.bx.toNat + l.cx.toNat < 2 ^ 16 then { l with bx := l.bx + l.cx }
  else
    let l := { l with ax := (high l.es + 0x10) ++ low l.es }
    { l with es := l.ax, bx := 0 }

def callReadTrack (labels : Labels) (l : Loader) : Loader :=
  (l.ok1Read labels).push labels.afterReadTrack

/-- What `rp_read` does until it comes back to itself -/
def round (labels : Labels) (bios : Bios) (l : Loader) : Option Loader :=
  let l := (l.callReadTrack labels).readTrack labels bios
  if l.ip = labels.afterReadTrack then some (l.nextPlace labels).nextBuffer else none

/-- `read_it`, up to `rp_read`. Only one byte of `sread` is written. -/
def start (labels : Labels) (l : Loader) : Loader :=
  let al := l.mem (physical initSeg setupSects) + 1
  { l with mem := Function.update l.mem (physical initSeg labels.sread) al, ax := l.es, bx := 0 }

/--
`read_it`, which stays at `die` for ever where `es` is not at a boundary of 64 kB. There are no more than 2880
sectors to read on a disk.
-/
def readIt (labels : Labels) (bios : Bios) (l : Loader) : Option Loader :=
  if l.es &&& 0x0fff ≠ 0 then none
  else (Loop.run More (round labels bios) 2880 (l.start labels)).map fun l =>
    { l with ax := l.es - sysSeg }.ret

end ReadIt

section Main

def move (l : Loader) : Loader :=
  { l with ax := initSeg, es := initSeg, cx := 0, si := 512, di := 512, mem := moveBoot l.mem }

def go (labels : Labels) (bios : Bios) (l : Loader) : Loader :=
  let l := { l with di := 0x4000 - 12 }
  let l := { l with sp := l.di }
  let l := bios.int10 { l with ax := 0x03#8 ++ low l.ax, bx := 0x00#8 ++ low l.bx }
  let l := bios.int10 { l with cx := 0xB, bx := 0x0007, bp := labels.msg1, ax := 0x1301 }
  let l := bios.int10 { l with ax := 0x01#8 ++ low l.ax, cx := 0x30#8 ++ low l.cx }
  { l with ax := sysSeg, es := sysSeg }.push labels.afterReadIt

/-- `_main`, from where the BIOS jumps to it until `read_it` is back -/
def main (labels : Labels) (bios : Bios) (l : Loader) : Option Loader :=
  ((l.move.go labels bios).readIt labels bios).bind fun l =>
    if l.ip = labels.afterReadIt then some l else none

end Main

end Loader

end Bootsect

end Zeos
