import Zeos.Impl.Devices

/-!
`interrupt.c`: the service routines of the clock and of the keyboard.
-/

namespace Zeos

def ascii (c : Char) : Byte :=
  BitVec.ofNat 8 c.toNat

-- The letters past ASCII are two bytes in the source, of which a `char` keeps the last one.
def charMap : List Byte :=
  [0, 0] ++ ['1', '2', '3', '4', '5', '6'].map ascii ++
  ['7', '8', '9', '0'].map ascii ++ [0x27, 0xA1, 0, 0] ++
  ['q', 'w', 'e', 'r', 't', 'y', 'u', 'i'].map ascii ++
  ['o', 'p'].map ascii ++ [0x60, ascii '+', 0, 0] ++ ['a', 's'].map ascii ++
  ['d', 'f', 'g', 'h', 'j', 'k', 'l'].map ascii ++ [0xB1] ++
  [0, 0xBA, 0, 0xA7] ++ ['z', 'x', 'c', 'v'].map ascii ++
  ['b', 'n', 'm', ',', '.', '-'].map ascii ++ [0, ascii '*'] ++
  [0, 0, 0, 0, 0, 0, 0, 0] ++
  [0, 0, 0, 0, 0, 0, 0, ascii '7'] ++
  ['8', '9', '-', '4', '5', '6', '+', '1'].map ascii ++
  ['2', '3', '0'].map ascii ++ [0, 0, 0, ascii '<', 0] ++
  [0, 0, 0, 0, 0, 0, 0, 0] ++
  [0, 0]

@[simps!]
def Kernel.keyPressed (entrada beyond : Byte) (k : Kernel) : Kernel :=
  let scanCode := entrada &&& 0x7f
  { k with
    keyboardBuff := k.keyboardBuff.cirBuffWrite (charMap.getD scanCode.toNat beyond) }

namespace Sys

/--
`keyboard_rutine`. `entrada` is read from the keyboard, and `beyond` lies at the place of the key when
that is past the end of `char_map`.
-/
def keyboardRutine (entrada beyond : Byte) (s : Sys) : Option Sys :=
  let makeOrBreak := entrada >>> 7
  if makeOrBreak = 0 then
    let s := s.mapKernel (Kernel.keyPressed entrada beyond)
    if !listEmpty (.head .keyboardqueue) s.links then do
      let ts ← firstTask .keyboardqueue s.links
      if s.keyboardBuff.cirBuffFull ≠ 0
          ∨ s.keyboardBuff.cirBuffLenght ≥ (s.task ts).requiredKeys - (s.task ts).readKeys then
        updateProcessStateRr ts (some .readyqueue) s
      else
        some s
    else
      some s
  else
    some s

def clockRutine (s : Sys) : Option Sys :=
  schedule (s.mapKernel fun k => { k with zeosTicks := k.zeosTicks + 1 })

end Sys

end Zeos
