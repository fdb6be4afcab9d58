import Zeos.Impl.System
import Zeos.Spec.Image
import Zeos.Spec.Bootsect

/-!
What the image, the loader and `main` do together: the user program runs at the address that it is linked for.
-/

namespace Zeos

def OnDisk (image : List Byte) (disk : Bootsect.Disk) : Prop :=
  ∀ i c, image[i]? = some c → disk i = c

def BootSectorLoaded (disk : Bootsect.Disk) (mem : Bootsect.Memory) : Prop :=
  ∀ i < 512, mem (Bootsect.physical Bootsect.bootSeg 0 + i) = disk i

/-- The boot sector in the file that the linker of 8086 code writes -/
def sectorOf (boot : List Byte) (i : Nat) : Byte :=
  boot.getD (Build.minixHeaderLen + i) 0

def userRoom : Nat :=
  (numPagCode + numPagData) * pageSize - 16

/--
User mode starts at the first byte of the program `usr`, which is all there and can be read, with `rdtr` behind
the stack.
-/
structure UserRuns (usr : List Byte) (x : UserStart × Space) : Prop where
  start : x.1 = { eip := lUserStart, cs := 0x23, esp := userESP, ss := 0x2B }
  program : ∀ i c, usr[i]? = some c → x.2.mm.userLoad x.2.pt (lUserStart + BitVec.ofNat 32 i) = some c
  rdtr : loadDWord (userESP + 12) x.2 = some 0x7E2B

/-- The system as it has been built is where the kernel is linked, behind the three numbers at its begin. -/
def KernelLoaded (sys : List Byte) (mem : Bootsect.Memory) : Prop :=
  ∀ i c, 12 ≤ i → sys[i]? = some c → mem (Bootsect.loadBase + i) = c

end Zeos
