import Zeos.Lib.Roll
import Zeos.Impl.Io
import Zeos.Spec.Libc

/-!
What the screen is for: the last rows of all that has been printed, and the last key in the corner.
-/

namespace Zeos

def cells : Nat :=
  numRows * numColumns

def videoBase : Addr :=
  0xb8000

def cellAddr (k : Nat) : Addr :=
  videoBase + BitVec.ofNat 32 (2 * k)

def green (c : Byte) : BitVec 16 :=
  0x02#8 ++ c

section Text

def textEnd (p : Nat) (cs : List Byte) : Nat :=
  Roll.endOf numColumns (· = newLine) p cs

def textLayout (p : Nat) (cs : List Byte) : List (Nat × Byte) :=
  Roll.layout numColumns (· = newLine) p cs

namespace ScreenEvent

def text (event : ScreenEvent) : List Byte :=
  match event with
  | .printk _ cs => cs
  | .print cs => cs
  | .key _ _ => []

def corner (event : ScreenEvent) : List Byte :=
  match event with
  | .printk _ _ => []
  | .print _ => []
  | .key entrada beyond =>
    if entrada >>> 7 = 0 then
      let c := charMap.getD (entrada &&& 0x7f).toNat beyond
      [if c = 0 then ascii 'C' else c]
    else
      []

/-- What an event prints when the cursor is at `p`, each character with its place -/
def prints (p : Nat) (event : ScreenEvent) : List (Nat × Byte) :=
  textLayout p event.text ++ textLayout 0 event.corner

def sent (event : ScreenEvent) : List Byte :=
  event.text ++ event.corner

end ScreenEvent

def allText (es : List ScreenEvent) : List Byte :=
  es.flatMap ScreenEvent.text

def allPrinted (p : Nat) (es : List ScreenEvent) : List (Nat × Byte) :=
  match es with
  | [] => []
  | e :: es => e.prints p ++ allPrinted (textEnd p e.text) es

end Text

section Screen

variable {σ : Type} [ByteMem σ]

def loadWord (a : Addr) (m : σ) : Option (BitVec 16) := do
  let b0 ← ByteMem.load m a
  let b1 ← ByteMem.load m (a + 1)
  some (b1 ++ b0)

namespace Screen

structure At (p : Nat) (s : Screen σ) : Prop where
  column : s.x.toNat < numColumns
  row : s.y.toNat < numRows
  place : s.y.toNat * numColumns + s.x.toNat = p % cells

/-- The screen has been there before, and shows what has been printed since. -/
structure Shows (es : List (Nat × Byte)) (m m' : σ) : Prop where
  cell : ∀ k < cells,
    loadWord (cellAddr k) m' = ((Roll.lastAt cells k es).map green).or (loadWord (cellAddr k) m)
  kept : ∀ a, ¬InRange videoBase (2 * cells) a → ByteMem.load m' a = ByteMem.load m a

/-- The string of a kernel message is where the kernel says, and not on the screen. -/
def Stands (m : σ) (event : ScreenEvent) : Prop :=
  match event with
  | .printk string cs => HoldsString string cs m ∧
      ∀ i ≤ cs.length, ¬InRange videoBase (2 * cells) (string + BitVec.ofNat 32 i)
  | .print _ => True
  | .key _ _ => True

structure Goes (p : Nat) (cs : List Byte) (es : List (Nat × Byte)) (s s' : Screen σ) : Prop where
  cursor : At p s'
  shows : Shows es s.mem s'.mem
  port : s'.port = s.port ++ cs
  backed : Backed videoBase (2 * cells) s'.mem

end Screen

end Screen

end Zeos
