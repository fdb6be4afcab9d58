import Zeos.Impl.Sys

/-!
`devices.c`: reads from the keyboard, and `sys_read` of `sys.c`, which is their only caller.
-/

namespace Zeos

namespace Kernel

/-- `copy_to_user(key, buff++, 1)`: the key itself is passed as the address to copy from. -/
def copyKey (key : Byte) (dest : Addr) (k : Kernel) : Kernel :=
  let start := key.signExtend 32
  let m : Space := { mm := k.mm, pt := Mm.getPT k.cr3 }
  match ByteMem.load m start, copyToUser start dest 1 m with
  | some byte, some m' =>
    let copy := { task := k.current, start := start, dest := dest, byte := byte }
    { k with mm := m'.mm, copies := k.copies ++ [copy] }
  | _, _ => { k with stopped := k.faultsStop }

/-- `n` rounds of one of the two `for` loops of `sys_read_keyboard` -/
def readKeysLoop (n : Nat) (buff : Addr) (k : Kernel) : Addr × Kernel :=
  match n with
  | 0 => (buff, k)
  | n + 1 =>
    let (key, keyboardBuff) := k.keyboardBuff.cirBuffRead
    let k := copyKey key buff { k with keyboardBuff := keyboardBuff }
    if k.stopped then (buff, k) else readKeysLoop n (buff + 1) k

@[simps!]
def requireKeys (size : Int) (k : Kernel) : Kernel :=
  k.setTask k.current fun ts => { ts with readKeys := 0, requiredKeys := size }

@[simps!]
def addReadKeys (n : Int) (k : Kernel) : Kernel :=
  k.setTask k.current fun ts => { ts with readKeys := ts.readKeys + n }

/-- The current task blocks on the keyboard, and goes on from the top of the `while`. -/
@[simps!]
def blockReading (buff : Addr) (k : Kernel) : Kernel :=
  (k.setTask k.current fun ts => { ts with estado := .stBlocked }).setCont k.current
    (.readKeyboard buff)

end Kernel

namespace Sys

/-- The end of the body of the `while` of `sys_read_keyboard`. -/
def waitKeyboard (buff : Addr) (s : Sys) : Option Sys := do
  let s ← s.mapLinks (listAdd (.list s.current) (.head .keyboardqueue))
  schedNextRr (s.mapKernel (Kernel.blockReading buff))

def readKeyboardBody (buff : Addr) (s : Sys) : Option Sys :=
  let ts := s.task s.current
  let requiredKeys := ts.requiredKeys - ts.readKeys
  if s.keyboardBuff.cirBuffLenght ≥ requiredKeys then
    -- The bound of the `for` is the field `requiredKeys`, not the local variable.
    let k := (s.readKeysLoop ts.requiredKeys.toNat buff).2
    if k.stopped then some { s with toKernel := k }
    else
      let k := k.addReadKeys requiredKeys
      some (ret (k.task k.current).readKeys { s with toKernel := k })
  else if s.keyboardBuff.cirBuffFull ≠ 0 then
    let (buff, k) := s.readKeysLoop cirBufferSize buff
    if k.stopped then some { s with toKernel := k }
    else waitKeyboard buff { s with toKernel := k.addReadKeys cirBufferSize }
  else
    waitKeyboard buff s

def sysReadKeyboard (buff : Addr) (size : Int) (s : Sys) : Option Sys := do
  let s := s.mapKernel (Kernel.requireKeys size)
  if !listEmpty (.head .keyboardqueue) s.links then
    let s ← updateProcessStateRr s.current (some .keyboardqueue) s
    schedNextRr (s.mapKernel fun k => k.setCont k.current (.readKeyboard buff))
  else
    readKeyboardBody buff s

def sysRead (fd : Int) (buf : Addr) (count : Int) (s : Sys) : Option Sys :=
  if buf = 0 then some (s.ret (-eFAULT))
  else if count < 0 then some (s.ret (-eINVAL))
  else if checkFd fd .lectura < 0 then some (s.ret (-eBADF))
  else if !accessOk .verifyWrite buf (BitVec.ofInt 32 count) then some (s.ret (-eFAULT))
  else sysReadKeyboard buf count s

end Sys

end Zeos
