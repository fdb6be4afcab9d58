import Zeos.Impl.Interrupt

/-!
`io.c`: the screen, whose words are in memory from `0xb8000` on, and the port of the emulator that gets a copy of
what is printed.
-/

namespace Zeos

def numColumns : Nat :=
  80

def numRows : Nat :=
  25

def newLine : Byte :=
  10

/-- The variables of `io.c`, what port `0xe9` has got, and the memory -/
structure Screen (σ : Type) where
  x : Byte
  y : Byte
  port : List Byte
  mem : σ

section Screen

variable {σ : Type} [ByteMem σ]

def storeWord (a : Addr) (v : BitVec 16) (m : σ) : Option σ := do
  let m ← ByteMem.store m a (v.extractLsb' 0 8)
  ByteMem.store m (a + 1) (v.extractLsb' 8 8)

namespace Screen

def nextRow (s : Screen σ) : Screen σ :=
  { s with x := 0, y := BitVec.ofNat 8 ((s.y.toNat + 1) % numRows) }

/-- `++x`, and what follows it at the end of the row -/
def nextColumn (s : Screen σ) : Screen σ :=
  let s := { s with x := s.x + 1 }
  if s.x.toNat ≥ numColumns then s.nextRow else s

def printc (c : Byte) (s : Screen σ) : Option (Screen σ) :=
  let s := { s with port := s.port ++ [c] }
  if c = newLine then some s.nextRow
  else
    let ch : BitVec 16 := (c.signExtend 16 &&& 0x00FF) ||| 0x0200
    let screen : Addr := BitVec.ofNat 32 (0xb8000 + (s.y.toNat * numColumns + s.x.toNat) * 2)
    (storeWord screen ch s.mem).map fun mem => { s.nextColumn with mem := mem }

def printcXy (mx my c : Byte) (s : Screen σ) : Option (Screen σ) :=
  (printc c { s with x := mx, y := my }).map fun s' => { s' with x := s.x, y := s.y }

def printk.go (string : Addr) (fuel i : Nat) (s : Screen σ) : Option (Screen σ) :=
  match fuel with
  | 0 => none
  | fuel + 1 =>
    (ByteMem.load s.mem (string + BitVec.ofNat 32 i)).bind fun c =>
      if c ≠ 0 then (s.printc c).bind (printk.go string fuel (i + 1)) else some s

/-- `printk`. A loop of `2 ^ 32` rounds has seen all the memory and is never left. -/
def printk (string : Addr) (s : Screen σ) : Option (Screen σ) :=
  printk.go string (2 ^ 32) 0 s

def printAll (cs : List Byte) (s : Screen σ) : Option (Screen σ) :=
  cs.foldlM (fun s c => s.printc c) s

def echo (entrada beyond : Byte) (s : Screen σ) : Option (Screen σ) :=
  let makeOrBreak := entrada >>> 7
  let scanCode := entrada &&& 0x7f
  if makeOrBreak = 0 then
    let c := charMap.getD scanCode.toNat beyond
    if c = 0 then s.printcXy 0x00 0x00 (ascii 'C') else s.printcXy 0x00 0x00 c
  else
    some s

end Screen

end Screen

/-- Who prints: the kernel a string with the characters `cs`, a system call of a user a text, the keyboard the key. -/
inductive ScreenEvent
  | printk (string : Addr) (cs : List Byte)
  | print (cs : List Byte)
  | key (entrada beyond : Byte)
  deriving DecidableEq, Repr

def Screen.step {σ : Type} [ByteMem σ] (event : ScreenEvent) (s : Screen σ) : Option (Screen σ) :=
  match event with
  | .printk string _ => s.printk string
  | .print cs => s.printAll cs
  | .key entrada beyond => s.echo entrada beyond

end Zeos
