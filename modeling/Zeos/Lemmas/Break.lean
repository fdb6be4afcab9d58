import Zeos.Spec.Break
import Zeos.Lemmas.Window

/-!
`sys_sbrk` lets a break into the page past the last one, and does not take one back to the start of the
heap that would wrap around below 0.
-/

namespace Zeos

namespace Kernel

section Present

variable {mm mm' : Mm} {tp a b i n p : Nat} {iPage aux : Int}

def presentPages (mm : Mm) (tp a b : Nat) : Finset Nat :=
  (Finset.Ico a b).filter fun p => (mm.pagusrTable (tp + p)).present

theorem presentPages_congr (h : ∀ p, a ≤ p → mm'.pagusrTable (tp + p) = mm.pagusrTable (tp + p))
    : presentPages mm' tp a b = presentPages mm tp a b := by
  apply Finset.filter_congr
  intro p hp
  rw [h p (Finset.mem_Ico.mp hp).1]

theorem presentPages_of_present (hab : a < b) (h : (mm.pagusrTable (tp + a)).present)
    : (presentPages mm tp a b).card = (presentPages mm tp (a + 1) b).card + 1 := by
  unfold presentPages
  rw [← Finset.insert_Ico_add_one_left_eq_Ico hab, Finset.filter_insert, if_pos h,
    Finset.card_insert_of_notMem (by simp)]

theorem presentPages_of_not_present (hab : a < b) (h : ¬(mm.pagusrTable (tp + a)).present)
    : presentPages mm tp a b = presentPages mm tp (a + 1) b := by
  unfold presentPages
  rw [← Finset.insert_Ico_add_one_left_eq_Ico hab, Finset.filter_insert, if_neg h]

theorem presentPages_taken {f : Nat} (halloc : mm.allocFrame = (some f, mm'))
    : presentPages (mm'.setSsPag tp i f) tp (i + 1) b = presentPages mm tp (i + 1) b := by
  obtain ⟨-, -, -, -, rfl⟩ := Mm.allocFrame_eq_some halloc
  apply presentPages_congr
  intro p hp
  rw [Mm.pagusrTable_setSsPag, if_neg (by omega)]
  rfl

theorem sbrkGrow_fst_iff
    : (sbrkGrow tp iPage aux n i mm).1 = true ↔
        (presentPages mm tp i (i + n)).card ≤ mm.freeFrames := by
  induction n generalizing i mm with
  | zero => simp [sbrkGrow, presentPages]
  | succ n ih =>
    have hend : i + (n + 1) = i + 1 + n := by omega
    unfold sbrkGrow
    split
    next hpresent =>
      rw [presentPages_of_present (by omega) hpresent, hend]
      split
      next f mm' halloc =>
        obtain ⟨-, -, hcount⟩ := Mm.freeFrames_of_allocFrame halloc
        rw [ih, presentPages_taken halloc, hcount, Nat.add_le_add_iff_right]
        rfl
      next mm' halloc =>
        have hfull : mm.NoFreeFrame := Mm.noFreeFrame_iff.mpr (congrArg Prod.fst halloc)
        rw [Mm.freeFrames_eq_zero_iff.mpr hfull]
        simp
    next hnot =>
      rw [presentPages_of_not_present (by omega) hnot, hend]
      exact ih

end Present

section Break

variable {k : Kernel} {incr : Int}

theorem BreakInside.range (h : k.BreakInside) : k.BreakInRange := by
  obtain ⟨hle, hlt⟩ := h
  refine ⟨hle, ?_⟩
  unfold breakLimit totalPages pageSize at *
  omega

theorem clampIncr_eq (hrange : k.BreakInRange) (hint : incr < 2 ^ 31)
    (hpos : 0 ≤ k.currentBreak + incr)
    : clampIncr k.currentBreak incr = k.breakWanted incr - k.currentBreak ∧
        (k.breakAfter incr : Int) = k.breakWanted incr := by
  obtain ⟨hclamp, hafter⟩ := clampIncr_of_nonneg hrange hint hpos
  have hwanted : k.breakWanted incr = lowered k.currentBreak incr := by
    unfold breakWanted lowered
    omega
  rw [hclamp, hafter, hwanted]
  exact ⟨rfl, rfl⟩

theorem large_iff (hafter : (k.breakAfter incr : Int) = k.breakWanted incr)
    : totalPages < k.breakAfter incr / pageSize ↔ breakLimit + pageSize ≤ k.breakWanted incr := by
  rw [← hafter]
  unfold breakLimit totalPages pageSize
  omega

theorem pagesAsked_eq (hafter : (k.breakAfter incr : Int) = k.breakWanted incr)
    (hsmall : ¬totalPages < k.breakAfter incr / pageSize)
    : k.pagesAsked incr = presentPages k.mm (k.getPT k.current) (k.currentBreak / pageSize)
        (pageAfter (k.breakAfter incr)) := by
  have hlast : pageAfter (k.breakAfter incr) ≤ totalPages + 1 := by
    unfold pageAfter
    split <;> omega
  ext p
  have hp : (p * pageSize : Int) < k.breakWanted incr ↔ p < pageAfter (k.breakAfter incr) := by
    rw [lt_pageAfter, ← hafter]
    norm_cast
  rw [pagesAsked, presentPages, Finset.mem_filter, Finset.mem_filter, Finset.mem_range,
    Finset.mem_Ico, hp, heapEntry]
  constructor
  . rintro ⟨-, hle, hlt, hpresent⟩
    exact ⟨⟨hle, hlt⟩, hpresent⟩
  . rintro ⟨⟨hle, hlt⟩, hpresent⟩
    exact ⟨by omega, hle, hlt, hpresent⟩

theorem sysSbrk_nonneg (hrange : k.BreakInRange)
    (hclamp : clampIncr k.currentBreak incr = k.breakWanted incr - k.currentBreak)
    (hlarge : ¬totalPages < k.breakAfter incr / pageSize) (hincr : incr ≤ 0)
    : 0 ≤ (k.sysSbrk incr).1 := by
  have hbreak : (k.task k.current).processBreak = k.currentBreak := rfl
  have hdown : ¬clampIncr k.currentBreak incr > 0 := by
    have := hrange.1
    unfold breakWanted at hclamp
    omega
  have hpage : pagLogInitHeap ≤ k.breakAfter incr / pageSize :=
    (Nat.le_div_iff_mul_le (by decide)).mpr (heapStart_le_addUnsigned k.currentBreak incr)
  unfold breakAfter at hlarge hpage
  unfold sysSbrk
  simp only [hbreak]
  rw [if_neg hlarge, if_neg hdown]
  split
  next =>
    rw [if_pos]
    . exact Int.natCast_nonneg _
    . apply sbrkShrink_fst
      omega
  next => exact Int.natCast_nonneg _

theorem sysSbrk_neg_iff (hrange : k.BreakInRange) (hle : -2 ^ 31 ≤ incr) (hlt : incr < 2 ^ 31)
    : (k.sysSbrk incr).1 < 0 ↔
        k.currentBreak + incr < 0 ∨ breakLimit + pageSize ≤ k.breakWanted incr ∨ k.RunsOut incr := by
  by_cases hwrap : k.currentBreak + incr < 0
  . rw [sysSbrk_of_large (breakAfter_of_wrap hrange hle hwrap)]
    simp [hwrap]
  obtain ⟨hclamp, hafter⟩ := clampIncr_eq hrange hlt (not_lt.mp hwrap)
  rw [or_iff_right hwrap, ← large_iff hafter]
  by_cases hlarge : totalPages < k.breakAfter incr / pageSize
  . rw [sysSbrk_of_large hlarge]
    simp [hlarge]
  rw [or_iff_right hlarge, RunsOut, pagesAsked_eq hafter hlarge]
  have hfirst : k.currentBreak / pageSize ≤ pageAfter (k.breakAfter incr) ∨ incr ≤ 0 := by
    rw [or_iff_not_imp_right]
    intro hpos
    have := breakAfter_of_pos hrange (not_le.mp hpos) hlt
    have := Nat.div_le_div_right (c := pageSize)
      (show k.currentBreak ≤ k.breakAfter incr by omega)
    have := div_le_pageAfter (k.breakAfter incr)
    omega
  constructor
  . intro hfails
    have hpos : 0 < incr := by
      by_contra hnot
      exact absurd hfails (not_lt.mpr (sysSbrk_nonneg hrange hclamp hlarge (not_lt.mp hnot)))
    obtain ⟨mm, hgrow, -⟩ := (sysSbrk_fails hfails).resolve_left hlarge
    refine ⟨hpos, ?_⟩
    have hgrow := congrArg Prod.fst hgrow
    rw [← Bool.not_eq_true, sbrkGrow_fst_iff, not_le] at hgrow
    have hend : k.currentBreak / pageSize + (k.breakAfter incr / pageSize +
        extraPage (k.breakAfter incr) - k.currentBreak / pageSize) =
          pageAfter (k.breakAfter incr) := by
      unfold pageAfter extraPage at *
      omega
    rw [hend] at hgrow
    exact hgrow
  . rintro ⟨hpos, hcard⟩
    by_contra hsuccess
    obtain ⟨-, mm, aux, hgrow, -⟩ := sysSbrk_grow hrange hpos hlt (not_lt.mp hsuccess)
    rw [← breakAfter_of_pos hrange hpos hlt] at hgrow
    have hgrow := sbrkGrow_fst_iff.mp (congrArg Prod.fst hgrow)
    rw [Nat.add_sub_cancel' (hfirst.resolve_right (by omega))] at hgrow
    omega

theorem currentBreak_sysSbrk (hrange : k.BreakInRange) (hlt : incr < 2 ^ 31)
    (hpos : 0 ≤ k.currentBreak + incr) (hsuccess : 0 ≤ (k.sysSbrk incr).1)
    : (k.sysSbrk incr).1 = k.currentBreak ∧
        ((k.sysSbrk incr).2.currentBreak : Int) = k.breakWanted incr := by
  rcases sysSbrk_break hrange incr with ⟨hfails, -⟩ | ⟨hret, htask⟩
  . omega
  . refine ⟨hret, ?_⟩
    rw [← (clampIncr_eq hrange hlt hpos).2]
    unfold currentBreak
    rw [current_sysSbrk, htask]
    simp

theorem movesBreak_iff (h : k.BreakInside) (hle : -2 ^ 31 ≤ incr) (hlt : incr < 2 ^ 31)
    : k.MovesBreak incr ↔ k.BreakFits incr := by
  have hfails := sysSbrk_neg_iff h.range hle hlt
  have hstart := h.1
  have hlimit : (heapStart : Int) ≤ breakLimit := by decide
  constructor
  . intro hmoves
    have hpos : 0 ≤ k.currentBreak + incr := by
      by_contra hneg
      have hwanted : k.breakWanted incr = heapStart := by
        unfold breakWanted
        omega
      rcases hmoves.fails (hfails.mpr (.inl (not_le.mp hneg))) with hpast | hout
      . omega
      . have := hout.1
        omega
    refine ⟨hpos, ?_⟩
    intro hpast
    by_contra hnot
    have hsuccess : 0 ≤ (k.sysSbrk incr).1 := by
      rw [← not_lt, hfails]
      rintro (hneg | hrest)
      . omega
      . exact hnot hrest
    have hbreak := (hmoves.moves hsuccess).2
    have := hmoves.inside.2
    omega
  . rintro ⟨hpos, hfit⟩
    constructor
    . intro hneg
      rcases hfails.mp hneg with hwrap | hlarge | hout
      . omega
      . left
        unfold pageSize at hlarge
        omega
      . exact .inr hout
    . exact currentBreak_sysSbrk h.range hlt hpos
    . rcases lt_or_ge (k.sysSbrk incr).1 0 with hneg | hsuccess
      . rcases sysSbrk_break h.range incr with ⟨-, hsame⟩ | ⟨hret, -⟩
        . unfold BreakInside currentBreak
          rw [current_sysSbrk, hsame]
          exact h
        . omega
      . obtain ⟨-, hbreak⟩ := currentBreak_sysSbrk h.range hlt hpos hsuccess
        have hwanted : (heapStart : Int) ≤ k.breakWanted incr := Int.le_max_left _ _
        refine ⟨by omega, ?_⟩
        by_contra hpast
        rcases hfit (by omega) with hlarge | hout
        . exact absurd (hfails.mpr (.inr (.inl hlarge))) (not_lt.mpr hsuccess)
        . exact absurd (hfails.mpr (.inr (.inr hout))) (not_lt.mpr hsuccess)

end Break

end Kernel

open Kernel

/--
A process moves its break as it should, and the break stays inside, exactly in the runs in which each call
fits.
-/
theorem allowed_movesBreak_iff {k : Kernel} (h : k.BreakInside) (es : List HeapEvent)
    : Run.Allowed heapStep (HeapEvent.OfCall MovesBreak) es k ∧
        Run.Always heapStep BreakInside es k ↔
      Run.Allowed heapStep (HeapEvent.OfCall BreakFits) es k := by
  have hiff : ∀ e k, k.BreakInside →
      (HeapEvent.OfCall MovesBreak e k ↔ HeapEvent.OfCall BreakFits e k) := by
    intro e k hk
    cases e with
    | sbrk incr => exact movesBreak_iff hk incr.le_toInt incr.toInt_lt
    | other k' => exact Iff.rfl
  have hstep : ∀ e k k', k.BreakInside → HeapEvent.OfCall BreakFits e k → heapStep e k = some k' →
      k'.BreakInside := by
    intro e k k' hk hok hstep
    cases e with
    | sbrk incr =>
      cases hstep
      exact ((hiff _ _ hk).mpr hok).inside
    | other k'' =>
      obtain ⟨hsame, ⟨⟩⟩ := Option.ite_none_right_eq_some.mp hstep
      unfold BreakInside
      rw [hsame]
      exact hk
  rw [Run.allowed_iff_allowed hiff hstep h]
  constructor
  . exact And.left
  . intro hok
    exact ⟨hok, Run.always_of_step hstep h hok⟩

theorem breakInside_boot {s : Sys} (hs : s ∈ boot fun _ _ => 0) : s.BreakInside := by
  unfold BreakInside
  rw [(heap_boot s hs).1]
  decide

theorem allowed_movesBreak_iff_first
    : ∃ s, boot (fun _ _ => 0) = some s ∧
        (Run.Allowed heapStep (HeapEvent.OfCall MovesBreak) [.sbrk 10, .sbrk (-20)] s.toKernel ∧
            Run.Always heapStep BreakInside [.sbrk 10, .sbrk (-20)] s.toKernel ↔
          Run.Allowed heapStep (HeapEvent.OfCall BreakFits) [.sbrk 10, .sbrk (-20)] s.toKernel) := by
  obtain ⟨s, hs⟩ := exists_boot fun _ _ => 0
  exact ⟨s, hs, allowed_movesBreak_iff (breakInside_boot hs) _⟩

theorem not_breakInside_first
    : ∃ s, boot (fun _ _ => 0) = some s ∧
        ¬(Run.Allowed heapStep (HeapEvent.OfCall MovesBreak) [.sbrk 3031041] s.toKernel ∧
          Run.Always heapStep BreakInside [.sbrk 3031041] s.toKernel) := by
  have hbreak : ∀ s ∈ boot fun _ _ => 0, (s.sysSbrk 3031041).2.currentBreak = breakLimit + 1 := by
    decide +kernel
  obtain ⟨s, hs⟩ := exists_boot fun _ _ => 0
  refine ⟨s, hs, ?_⟩
  rintro ⟨-, halways⟩
  have hinside := (halways.last rfl).2
  have hincr : (3031041 : BitVec 32).toInt = 3031041 := by decide
  rw [hincr, hbreak s hs] at hinside
  omega

end Zeos
