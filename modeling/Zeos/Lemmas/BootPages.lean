import Zeos.Lemmas.BootMemory
import Zeos.Lemmas.Unaliased

/-!
The page table with which `main` moves the user program, entry by entry. It does not depend on what is in memory.
-/

namespace Zeos

namespace Mm

section Frames

variable (frames : Nat → Nat → Byte) (mm : Mm)

def withFrames : Mm :=
  { mm with frames := frames }

@[simp]
theorem pagusrTable_withFrames : (mm.withFrames frames).pagusrTable = mm.pagusrTable :=
  rfl

@[simp]
theorem frames_withFrames : (mm.withFrames frames).frames = frames :=
  rfl

theorem allocFrame_withFrames
    : (mm.withFrames frames).allocFrame = (mm.allocFrame.1, mm.allocFrame.2.withFrames frames) := by
  have hgo : ∀ fuel i, allocFrame.go (mm.withFrames frames) fuel i = allocFrame.go mm fuel i :=
    allocFrame_go_congr rfl
  unfold allocFrame
  rw [hgo]
  cases allocFrame.go mm ((totalPages - numPagKernel) / 2) numPagKernel with
  | none => rfl
  | some f => rfl

def mapPage (rw : Bool) (i : Nat) : Mm :=
  mm.allocFrame.2.setEntry i
    { present := true, rw := rw, user := true, pbaseAddr := pbaseOfFrame mm.allocFrame.1 }

theorem mapPage_withFrames (rw : Bool) (i : Nat)
    : (mm.withFrames frames).mapPage rw i = (mm.mapPage rw i).withFrames frames := by
  unfold mapPage
  rw [allocFrame_withFrames]
  rfl

theorem mapPages_withFrames (rw : Bool) (pt first : Nat) (pages : List Nat)
    : pages.foldl (fun mm pag => mm.mapPage rw (pt + (first + pag))) (mm.withFrames frames) =
        (pages.foldl (fun mm pag => mm.mapPage rw (pt + (first + pag))) mm).withFrames frames := by
  induction pages generalizing mm with
  | nil => rfl
  | cons pag pages ih =>
    rw [List.foldl_cons, List.foldl_cons, mapPage_withFrames, ih]

theorem setUserPages_eq (pt : Nat)
    : mm.setUserPages pt = (List.range numPagData).foldl (fun mm pag => mm.mapPage true (pt + (pagLogInitData + pag)))
        ((List.range numPagCode).foldl (fun mm pag => mm.mapPage false (pt + (pagLogInitCode + pag))) mm) := by
  rfl

theorem setUserPages_withFrames (pt : Nat)
    : (mm.withFrames frames).setUserPages pt = (mm.setUserPages pt).withFrames frames := by
  rw [setUserPages_eq, setUserPages_eq, mapPages_withFrames, mapPages_withFrames]

end Frames

end Mm

def bootEntry (page : Nat) : PageTableEntry :=
  if page = 0 then .zero
  else if page < numPagKernel then { present := true, rw := true, user := false, pbaseAddr := page }
  else if page < pagLogInitHeap then
    { present := true, rw := decide (pagLogInitData ≤ page), user := true
      pbaseAddr := numPagKernel + 2 * (page - numPagKernel) }
  else .zero

section Boot

variable (frames : Nat → Nat → Byte)

theorem pagusrTable_first
    : ∀ page < totalPages,
        ((Mm.initial fun _ _ => 0).setUserPages (Mm.getPT 1)).pagusrTable (Mm.getPT 1 + page) = bootEntry page := by
  decide +kernel

theorem mm_boot_eq : (Model.boot frames).mm =
    ((Mm.initial fun _ _ => 0).setUserPages (Mm.getPT 1)).withFrames frames := by
  have hinitial : (Sys.zero frames).mm.initTablePages.initFrames =
      (Mm.initial fun _ _ => 0).withFrames frames := rfl
  rw [Model.mm_boot, hinitial, Mm.setUserPages_withFrames]

theorem pagusrTable_boot {page : Nat} (hpage : page < totalPages)
    : (Model.boot frames).mm.pagusrTable (Mm.getPT 1 + page) = bootEntry page := by
  rw [mm_boot_eq, Mm.pagusrTable_withFrames]
  exact pagusrTable_first page hpage

theorem frames_boot : (Model.boot frames).mm.frames = frames := by
  rw [mm_boot_eq, Mm.frames_withFrames]

end Boot

end Zeos
