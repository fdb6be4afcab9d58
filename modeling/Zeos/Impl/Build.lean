import Zeos.Lib.File
import Zeos.Impl.Types

/-!
`build.c`, which makes the image of a disk from a boot sector, the system and the user program. Its standard
output is a file and takes all that is written to it, and what it prints on its standard error but for the
last line of a failure is left out.
-/

namespace Zeos

namespace Build

def minixHeaderLen : Nat :=
  32

def sizeofBuf : Nat :=
  1024

def defaultMajorRoot : Byte :=
  0

def defaultMinorRoot : Byte :=
  0

def hdr : List Byte :=
  [0x01, 0x03, 0x10, 0x04, 0x20, 0x00, 0x00, 0x00]

/-- How a name leads to the bytes of a file, or to the text of the error (`%m`). -/
abbrev Files := String → Except String (List Byte)

/-- `buf`, what is left to read of the file behind `fd`, and the standard output -/
structure Process where
  buf : Nat → Byte
  fd : List Byte
  out : File.Output Byte

def die {α : Type} (str : String) : Except String α :=
  .error str

namespace Process

def buf0 (p : Process) (n : Nat) : List Byte :=
  (List.range n).map p.buf

def lb (p : Process) (i : Nat) : BitVec 32 :=
  p.buf (4 * i + 3) ++ p.buf (4 * i + 2) ++ p.buf (4 * i + 1) ++ p.buf (4 * i)

def openFile (files : Files) (name : String) (p : Process) : Except String Process :=
  match files name with
  | .error m => die ("Unable to open `" ++ name ++ "': " ++ m)
  | .ok bytes => .ok { p with fd := bytes }

def read (l : Nat) (p : Process) : Nat × Process :=
  let bytes := p.fd.take l
  (bytes.length, { p with buf := fun i => bytes.getD i (p.buf i), fd := p.fd.drop l })

def write (l : Nat) (p : Process) : Process :=
  { p with out := p.out.write 0 (p.buf0 l) }

def lseek (pos : Nat) (p : Process) : Process :=
  { p with out := p.out.seek pos }

def setBuf (i : Nat) (v : Byte) (p : Process) : Process :=
  { p with buf := Function.update p.buf i v }

end Process

def minixOpen (files : Files) (name : String) (p : Process) : Except String Process := do
  let p ← p.openFile files name
  let (n, p) := p.read minixHeaderLen
  if n ≠ minixHeaderLen then die (name ++ ": Unable to read header")
  else if p.buf0 hdr.length ≠ hdr ∨ p.lb 5 ≠ 0 then die (name ++ ": Non-Minix header")
  else if p.lb 3 ≠ 0 then die (name ++ ": Illegal data segment")
  else if p.lb 4 ≠ 0 then die (name ++ ": Illegal bss segment")
  else if p.lb 7 ≠ 0 then die (name ++ ": Illegal symbol table")
  else .ok p

def copyBoot (files : Files) (name : String) (p : Process) : Except String Process := do
  let p ← minixOpen files name p
  let (i, p) := p.read sizeofBuf
  if i ≠ 512 then die "Boot block must be exactly 512 bytes"
  else if p.buf 510 ≠ 0x55 ∨ p.buf 511 ≠ 0xaa then die "Boot block hasn't got boot flag (0xAA55)"
  else .ok (((p.setBuf 508 defaultMinorRoot).setBuf 509 defaultMajorRoot).write 512)

/-- `while (sz > 0)`, which is left at the latest when `sz` rounds have been made -/
def copyLoop (name : String) (fuel sz : Nat) (p : Process) : Except String Process :=
  match fuel with
  | 0 => .ok p
  | fuel + 1 =>
    if sz > 0 then
      let l := if sz > sizeofBuf then sizeofBuf else sz
      let (n, p) := p.read l
      if n ≠ l then die (name ++ ": Unexpected EOF")
      else copyLoop name fuel (sz - l) (p.write l)
    else
      .ok p

/-- The part of `main` for the system, and the one for the user program: the size of the file is cut to 32 bits -/
def copyFile (files : Files) (name : String) (p : Process) : Except String (BitVec 32 × Process) := do
  let p ← p.openFile files name
  let sz := BitVec.ofNat 32 p.fd.length
  let p ← copyLoop name sz.toNat sz.toNat p
  .ok (sz, p)

/-- The three low bytes of `v`, and a zero, are written at `pos`. -/
def writeSize (pos : Nat) (v : BitVec 32) (p : Process) : Process :=
  let p := p.lseek pos
  let p := p.setBuf 0 ((v &&& 0xff).setWidth 8)
  let p := p.setBuf 1 (((v >>> 8) &&& 0xff).setWidth 8)
  let p := p.setBuf 2 (((v >>> 16) &&& 0xff).setWidth 8)
  let p := p.setBuf 3 0
  p.write 4

def writeSizes (sysSize usrSize : BitVec 32) (p : Process) : Process :=
  let p := p.lseek 500
  let imSize := (sysSize + usrSize + 15) / 16
  let p := p.setBuf 0 ((imSize &&& 0xff).setWidth 8)
  let p := p.setBuf 1 (((imSize >>> 8) &&& 0xff).setWidth 8)
  let p := p.write 2
  let p := writeSize 512 sysSize p
  let p := writeSize 516 usrSize p
  writeSize 520 0x7E2B p

/-- `main`, and what its standard output holds in the end; `argv[0]` is not among the arguments. -/
def main (files : Files) (argv : List String) : Except String (List Byte) :=
  match argv with
  | [bootsect, system, user] => do
    let p ← copyBoot files bootsect { buf := fun _ => 0, fd := [], out := .empty }
    let (sysSize, p) ← copyFile files system p
    let (usrSize, p) ← copyFile files user p
    .ok (writeSizes sysSize usrSize p).out.bytes
  | _ => die "Usage: build bootsect system user [> image]"

end Build

end Zeos
