import Zeos.Lemmas.CopyPage
import Zeos.Spec.Memory

/-!
What users load and store through their page tables, and what is left of the others when an address
space goes.
-/

namespace Zeos

namespace Mm

def dataPage (a : Addr) : Nat :=
  a.toNat / pageSize - pagLogInitData

def dataAt (mm : Mm) (d : DirIx) (a : Addr) : Byte :=
  mm.dataByte d (dataPage a) (a.toNat % pageSize)

variable {owned : DirIx → Nat → Prop} {mm mm' : Mm} {d e : DirIx} {a b : Addr} {v : Byte}

theorem dataPage_lt (ha : DataAddr a) : dataPage a < numPagData := by
  obtain ⟨hle, hlt⟩ := ha
  unfold dataPage pagLogInitHeap at *
  omega

theorem pagLogInitData_add_dataPage (ha : DataAddr a)
    : pagLogInitData + dataPage a = a.toNat / pageSize := by
  obtain ⟨hle, -⟩ := ha
  unfold dataPage
  omega

theorem page_lt_of_dataAddr (ha : DataAddr a) : a.toNat / pageSize < totalPages := by
  rw [← pagLogInitData_add_dataPage ha]
  exact pagLogInitData_add_lt (dataPage_lt ha)

theorem eq_of_page_eq (hpage : a.toNat / pageSize = b.toNat / pageSize)
    (hoffset : a.toNat % pageSize = b.toNat % pageSize) : a = b := by
  apply BitVec.eq_of_toNat_eq
  rw [← Nat.div_add_mod a.toNat pageSize, ← Nat.div_add_mod b.toNat pageSize, hpage, hoffset]

theorem frames_setByte (f o : Nat) (g o' : Nat)
    : (mm.setByte f o v).frames g o' = if g = f ∧ o' = o then v else mm.frames g o' := by
  rfl

@[simp]
theorem dataEntry_setByte (f o p : Nat) : (mm.setByte f o v).dataEntry d p = mm.dataEntry d p := by
  rfl

namespace Spaces

theorem entryOf_eq (h : mm.Spaces owned) (ha : DataAddr a) (hown : owned d (dataPage a))
    : mm.entryOf (getPT d) a = some (mm.dataEntry d (dataPage a)) := by
  obtain ⟨f, hf, -, -⟩ := h.mapped d _ (dataPage_lt ha) hown
  have hentry : mm.pagusrTable (getPT d + a.toNat / pageSize) = ssEntry f := by
    rw [← pagLogInitData_add_dataPage ha]
    exact hf
  unfold entryOf
  rw [if_pos (page_lt_of_dataAddr ha), hentry, hf]
  rfl

theorem userLoad (h : mm.Spaces owned) (ha : DataAddr a) (hown : owned d (dataPage a))
    : mm.userLoad (getPT d) a = some (mm.dataAt d a) := by
  obtain ⟨f, hf, -, -⟩ := h.mapped d _ (dataPage_lt ha) hown
  unfold Mm.userLoad dataAt dataByte
  rw [h.entryOf_eq ha hown, Option.bind_some, hf]
  rfl

theorem userStore_eq_some (h : mm.Spaces owned) (hstore : mm.userStore (getPT d) a v = some mm')
    : DataAddr a ∧
        mm' = mm.setByte (mm.dataEntry d (dataPage a)).pbaseAddr (a.toNat % pageSize) v := by
  obtain ⟨x, hx, hstore⟩ := Option.bind_eq_some_iff.mp hstore
  obtain ⟨⟨huser, hrw⟩, hstore⟩ := Option.ite_none_right_eq_some.mp hstore
  cases hstore
  unfold entryOf at hx
  obtain ⟨hpage, hx⟩ := Option.ite_none_right_eq_some.mp hx
  obtain ⟨hpresent, hx⟩ := Option.ite_none_right_eq_some.mp hx
  cases hx
  have ha : DataAddr a := by
    by_contra hout
    exact h.guarded d _ hpage hout ⟨hpresent, huser, hrw⟩
  refine ⟨ha, ?_⟩
  unfold dataEntry entry
  rw [pagLogInitData_add_dataPage ha]

theorem setByte (h : mm.Spaces owned) (f o : Nat) : (mm.setByte f o v).Spaces owned := by
  apply h.congr
  . intro _ _ _
    rfl
  . intro _ _ _
    rfl
  . rfl
  . exact h.guarded

theorem dataAt_setByte (h : mm.Spaces owned) (ha : DataAddr a) (hb : DataAddr b)
    (howna : owned d (dataPage a)) (hownb : owned e (dataPage b))
    : (mm.setByte (mm.dataEntry d (dataPage a)).pbaseAddr (a.toNat % pageSize) v).dataAt e b =
        if e = d ∧ b = a then v else mm.dataAt e b := by
  unfold dataAt dataByte
  rw [dataEntry_setByte, frames_setByte]
  by_cases heq : e = d ∧ b = a
  . obtain ⟨rfl, rfl⟩ := heq
    rw [if_pos ⟨rfl, rfl⟩, if_pos ⟨rfl, rfl⟩]
  . rw [if_neg heq, if_neg]
    rintro ⟨hframe, hoffset⟩
    obtain ⟨hed, hpage⟩ := h.inj e d _ _ (dataPage_lt hb) (dataPage_lt ha) hownb howna hframe
    apply heq
    refine ⟨hed, eq_of_page_eq ?_ hoffset⟩
    rw [← pagLogInitData_add_dataPage ha, ← pagLogInitData_add_dataPage hb, hpage]

end Spaces

theorem frames_freeFrame (f : Nat) : (mm.freeFrame f).frames = mm.frames := by
  unfold freeFrame
  split
  next => rfl
  next => rfl

theorem entry_freeUserPages {page : Nat} (hpage : page < pagLogInitData)
    : (Kernel.freeUserPages (getPT d) mm).entry e page = mm.entry e page := by
  have hlt : page < totalPages := by
    unfold pagLogInitData pagLogInitCode numPagCode totalPages at *
    omega
  have key : ∀ ps : List Nat, (∀ p ∈ ps, p < numPagData) →
      (ps.foldl (fun mm p =>
        (mm.freeFrame (mm.getFrame (getPT d) (pagLogInitData + p))).delSsPag (getPT d)
          (pagLogInitData + p)) mm).entry e page = mm.entry e page := by
    intro ps
    induction ps generalizing mm with
    | nil => exact fun _ => rfl
    | cons p ps ih =>
      intro hps
      rw [List.foldl_cons, ih (fun q hq => hps q (by simp [hq]))]
      refine (entry_setEntry hlt (pagLogInitData_add_lt (hps p (by simp)))).trans ?_
      rw [if_neg (by omega)]
      unfold entry
      rw [pagusrTable_freeFrame]
  unfold Kernel.freeUserPages
  exact key _ (fun p hp => List.mem_range.mp hp)

theorem SamePages.dataAt_eq (h : SamePages owned mm mm') (ha : DataAddr a)
    (hown : owned d (dataPage a)) : mm'.dataAt d a = mm.dataAt d a :=
  h.dataByte_eq (dataPage_lt ha) hown _

theorem samePages_freeUserPages
    : SamePages (fun e _ => e ≠ d) mm (Kernel.freeUserPages (getPT d) mm) := by
  have key : ∀ ps : List Nat, (∀ p ∈ ps, p < numPagData) →
      SamePages (fun e _ => e ≠ d) mm (ps.foldl (fun mm p =>
        (mm.freeFrame (mm.getFrame (getPT d) (pagLogInitData + p))).delSsPag (getPT d)
          (pagLogInitData + p)) mm) := by
    intro ps
    induction ps generalizing mm with
    | nil => exact fun _ => .refl _ mm
    | cons p ps ih =>
      intro hps
      rw [List.foldl_cons]
      apply SamePages.trans ?_ (ih (fun q hq => hps q (by simp [hq]))) (fun _ _ hne => hne)
      intro e q hq hne
      constructor
      . refine (dataEntry_setEntry hq (pagLogInitData_add_lt (hps p (by simp)))).trans ?_
        rw [if_neg (fun heq => hne heq.1)]
        unfold dataEntry entry
        rw [pagusrTable_freeFrame]
      . intro o
        change (mm.freeFrame _).frames _ o = _
        rw [frames_freeFrame]
  unfold Kernel.freeUserPages
  apply key
  intro p hp
  exact List.mem_range.mp hp

end Mm

end Zeos
