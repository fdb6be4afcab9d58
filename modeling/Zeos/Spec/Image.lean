import Zeos.Impl.Build

/-!
What `build` accepts, and what an image is for: from its headers, the sizes and both programs can be read back.
-/

namespace Zeos

namespace Build

def dwordOf (bytes : List Byte) (i : Nat) : BitVec 32 :=
  bytes.getD (4 * i + 3) 0 ++ bytes.getD (4 * i + 2) 0 ++ bytes.getD (4 * i + 1) 0 ++ bytes.getD (4 * i) 0

/-- A boot sector behind the header that the linker of 8086 code writes. -/
structure BootFile (bytes : List Byte) : Prop where
  length : bytes.length = minixHeaderLen + 512
  magic : bytes.take hdr.length = hdr
  data : dwordOf bytes 3 = 0
  bss : dwordOf bytes 4 = 0
  entry : dwordOf bytes 5 = 0
  symbols : dwordOf bytes 7 = 0
  flag : bytes.drop (minixHeaderLen + 510) = [0x55, 0xaa]

def valueOf (bs : List Byte) : Nat :=
  bs.foldr (fun b k => b.toNat + 256 * k) 0

def numberAt (image : List Byte) (pos n : Nat) : Nat :=
  valueOf (File.slice pos n image)

/-- Where `build` writes into the boot sector: the size of the image, and the root device -/
def patched : List Nat :=
  [500, 501, 508, 509]

/--
An image of the two programs: the loader reads their size from the boot sector, and the kernel reads from the
first three words of the system where it ends, how long the user program is, and `rdtr`.
-/
structure Image (boot sys usr image : List Byte) : Prop where
  length : image.length = 512 + sys.length + usr.length
  boot : ∀ i < 512, i ∉ patched → image[i]? = boot[minixHeaderLen + i]?
  imSize : numberAt image 500 2 = (sys.length + usr.length + 15) / 16
  sysSize : numberAt image 512 4 = sys.length
  usrSize : numberAt image 516 4 = usr.length
  rdtr : numberAt image 520 4 = 0x7E2B
  system : File.slice (512 + 12) (sys.length - 12) image = sys.drop 12
  user : File.slice (512 + sys.length) usr.length image = usr

end Build

end Zeos
