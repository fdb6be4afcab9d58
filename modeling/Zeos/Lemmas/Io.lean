import Zeos.Lib.Run
import Zeos.Spec.Io
import Zeos.Lemmas.Bytes

/-!
What is on the screen after any run: one lemma for each function of `io.c`, and from them the whole run.
-/

namespace Zeos

section Words

variable {σ : Type} [ByteMem σ] [LawfulByteMem σ] {m m' : σ} {a : Addr} {v : BitVec 16} {k j : Nat}

theorem append_bytes (v : BitVec 16) : v.extractLsb' 8 8 ++ v.extractLsb' 0 8 = v := by
  have hlt := v.isLt
  apply BitVec.eq_of_toNat_eq
  rw [BitVec.toNat_append, ← Nat.shiftLeft_add_eq_or_of_lt (v.extractLsb' 0 8).isLt, Nat.shiftLeft_eq,
    BitVec.extractLsb'_toNat, BitVec.extractLsb'_toNat, Nat.shiftRight_eq_div_pow, Nat.shiftRight_eq_div_pow]
  omega

theorem storeWord_spec (h : Backed a 2 m) (v : BitVec 16)
    : ∃ m', storeWord a v m = some m' ∧ loadWord a m' = some v ∧
        ∀ b, ¬InRange a 2 b → ByteMem.load m' b = ByteMem.load m b := by
  obtain ⟨m₀, h₀, hb₀⟩ := h.exists_store (i := 0) (by omega) (v.extractLsb' 0 8)
  obtain ⟨m₁, h₁, hb₁⟩ := hb₀.exists_store (i := 1) (by omega) (v.extractLsb' 8 8)
  rw [add_ofNat_zero] at h₀
  have hload : ∀ b, ByteMem.load m₁ b = if b = a + BitVec.ofNat 32 1 then some (v.extractLsb' 8 8)
      else if b = a then some (v.extractLsb' 0 8) else ByteMem.load m b := by
    intro b
    rw [LawfulByteMem.load_of_store h₁, LawfulByteMem.load_of_store h₀]
  have hne : a ≠ a + BitVec.ofNat 32 1 := by
    bv_omega
  refine ⟨m₁, ?_, ?_, ?_⟩
  . change (ByteMem.store m a _).bind (fun m => ByteMem.store m (a + BitVec.ofNat 32 1) _) = _
    rw [h₀, Option.bind_some, h₁]
  . change (ByteMem.load m₁ a).bind (fun b0 => (ByteMem.load m₁ (a + BitVec.ofNat 32 1)).bind fun b1 =>
      some (b1 ++ b0)) = _
    rw [hload a, if_neg hne, if_pos rfl, Option.bind_some, hload (a + BitVec.ofNat 32 1), if_pos rfl,
      Option.bind_some, append_bytes]
  . intro b hb
    have hout : ∀ i < 2, b ≠ a + BitVec.ofNat 32 i := by
      rintro i hi rfl
      exact hb (inRange_add a hi)
    have h0 := hout 0 (by omega)
    rw [add_ofNat_zero] at h0
    rw [hload b, if_neg (hout 1 (by omega)), if_neg h0]

theorem Backed.storeWord {base : Addr} {n : Nat} (h : Backed base n m) (hstore : storeWord a v m = some m')
    : Backed base n m' := by
  obtain ⟨m₀, h₀, h₁⟩ := Option.bind_eq_some_iff.mp hstore
  exact (h.store h₀).store h₁

omit [LawfulByteMem σ] in
theorem loadWord_congr (h : ∀ i < 2, ByteMem.load m' (a + BitVec.ofNat 32 i) = ByteMem.load m (a + BitVec.ofNat 32 i))
    : loadWord a m' = loadWord a m := by
  have h0 := h 0 (by omega)
  have h1 : ByteMem.load m' (a + 1) = _ := h 1 (by omega)
  rw [add_ofNat_zero] at h0
  unfold loadWord
  rw [h0, h1]
  rfl

theorem not_inRange_cell (hk : k < cells) (hj : j < cells) (hne : k ≠ j) {i : Nat} (hi : i < 2)
    : ¬InRange (cellAddr j) 2 (cellAddr k + BitVec.ofNat 32 i) := by
  unfold InRange cellAddr videoBase
  unfold cells numRows numColumns at hk hj
  bv_omega

theorem inRange_cell (hk : k < cells) (h : InRange (cellAddr k) 2 a) : InRange videoBase (2 * cells) a := by
  unfold InRange cellAddr videoBase at *
  unfold cells numRows numColumns at *
  bv_omega

omit [LawfulByteMem σ] in
theorem backed_cell (hk : k < cells) (h : Backed videoBase (2 * cells) m) : Backed (cellAddr k) 2 m := by
  intro i hi
  have haddr : cellAddr k + BitVec.ofNat 32 i = videoBase + BitVec.ofNat 32 (2 * k + i) := by
    unfold cellAddr
    bv_omega
  rw [haddr]
  exact h (2 * k + i) (by omega)

end Words

namespace Screen

section Cursor

variable {σ : Type} {s : Screen σ} {p : Nat}

theorem green_eq (c : Byte) : (c.signExtend 16 &&& 0x00FF) ||| 0x0200 = green c := by
  revert c
  decide +kernel

theorem At.nextRow (h : At p s) : At ((p / numColumns + 1) * numColumns) s.nextRow := by
  obtain ⟨hcolumn, hrow, hplace⟩ := h
  unfold cells numColumns numRows at *
  have hy : s.nextRow.y.toNat = (s.y.toNat + 1) % 25 := by
    rw [Screen.nextRow, BitVec.toNat_ofNat]
    exact Nat.mod_eq_of_lt (by unfold numRows; omega)
  constructor
  . exact (by omega : 0 < 80)
  . rw [hy]
    unfold numRows
    omega
  . rw [hy]
    change (s.y.toNat + 1) % 25 * 80 + 0 = (p / 80 + 1) * 80 % (25 * 80)
    omega

theorem At.nextColumn (h : At p s) : At (p + 1) s.nextColumn := by
  have hcolumn := h.column
  have hplace := h.place
  have hrow := h.row
  have hx : (s.x + 1).toNat = s.x.toNat + 1 := by
    unfold numColumns at hcolumn
    bv_omega
  unfold Screen.nextColumn
  dsimp only
  split
  next hend =>
    rw [hx] at hend
    have hnext := h.nextRow
    have hp : ((p / numColumns + 1) * numColumns) = p + 1 := by
      unfold cells numColumns numRows at *
      omega
    rw [hp] at hnext
    exact hnext
  next hend =>
    rw [hx] at hend
    constructor
    . exact hx ▸ Nat.lt_of_not_le hend
    . exact hrow
    . change s.y.toNat * numColumns + (s.x + 1).toNat = _
      rw [hx]
      unfold cells numColumns numRows at *
      omega

theorem nextColumn_port : s.nextColumn.port = s.port := by
  unfold Screen.nextColumn
  dsimp only
  split
  . rfl
  . rfl

theorem cell_eq (h : At p s)
    : (BitVec.ofNat 32 (0xb8000 + (s.y.toNat * numColumns + s.x.toNat) * 2) : Addr) = cellAddr (p % cells) := by
  rw [h.place]
  unfold cellAddr videoBase
  bv_omega

end Cursor

variable {σ : Type} [ByteMem σ] {m m' m'' : σ} {es fs : List (Nat × Byte)} {s s' : Screen σ} {p : Nat} {c : Byte}
  {cs : List Byte}

section Shows

theorem Shows.nil : Shows [] m m :=
  ⟨fun _ _ => rfl, fun _ _ => rfl⟩

theorem Shows.append (h : Shows es m m') (h' : Shows fs m' m'') : Shows (es ++ fs) m m'' := by
  constructor
  . intro k hk
    rw [h'.cell k hk, h.cell k hk, Roll.lastAt_append, Option.map_or, Option.or_assoc]
  . intro a ha
    rw [h'.kept a ha, h.kept a ha]

theorem shows_singleton {k : Nat} (hk : p % cells = k) (hlt : k < cells)
    (hcell : loadWord (cellAddr k) m' = some (green c))
    (hkept : ∀ b, ¬InRange (cellAddr k) 2 b → ByteMem.load m' b = ByteMem.load m b)
    : Shows [(p, c)] m m' := by
  constructor
  . intro j hj
    have hlast : Roll.lastAt cells j [(p, c)] = if k = j then some c else none := by
      rw [Roll.lastAt_cons, hk]
      rfl
    rw [hlast]
    by_cases hkj : k = j
    . subst hkj
      rw [if_pos rfl, hcell]
      rfl
    . rw [if_neg hkj]
      apply loadWord_congr
      intro i hi
      exact hkept _ (not_inRange_cell hj hlt (Ne.symm hkj) hi)
  . intro a ha
    exact hkept a fun h => ha (inRange_cell hlt h)

theorem Goes.trans {ds : List Byte} {q : Nat} {t : Screen σ} (h : Goes p cs es s s') (h' : Goes q ds fs s' t)
    : Goes q (cs ++ ds) (es ++ fs) s t where
  cursor := h'.cursor
  shows := h.shows.append h'.shows
  port := by rw [h'.port, h.port, List.append_assoc]
  backed := h'.backed

end Shows

theorem length_lt_of_holdsString {b : Addr} (h : HoldsString b cs m) : cs.length < 2 ^ 32 := by
  by_contra hlen
  have hlt : cs.length % 2 ^ 32 < cs.length := by
    have := Nat.mod_lt cs.length (by decide : 0 < 2 ^ 32)
    omega
  have hchar : (cs ++ [0])[cs.length % 2 ^ 32]? = some cs[cs.length % 2 ^ 32] := by
    rw [List.getElem?_append_left hlt, List.getElem?_eq_getElem hlt]
  have haddr : BitVec.ofNat 32 (cs.length % 2 ^ 32) = BitVec.ofNat 32 cs.length := by
    apply BitVec.eq_of_toNat_eq
    simp only [BitVec.toNat_ofNat, Nat.mod_mod]
  have hzero := h.bytes _ _ hchar
  rw [haddr, h.bytes _ _ List.getElem?_concat_length] at hzero
  exact h.not_nul (Option.some.inj hzero ▸ List.getElem_mem hlt)

theorem Stands.shows {e : ScreenEvent} (h : Stands m e) (hshows : Shows es m m') : Stands m' e := by
  cases e with
  | printk string cs =>
    obtain ⟨hstring, hout⟩ := h
    refine ⟨⟨?_, hstring.not_nul⟩, hout⟩
    intro i c hc
    have hi : i < (cs ++ [0]).length := (List.getElem?_eq_some_iff.mp hc).1
    rw [List.length_append, List.length_singleton] at hi
    rw [hshows.kept _ (hout i (by omega))]
    exact hstring.bytes i c hc
  | print cs => trivial
  | key entrada beyond => trivial

section Goes

variable [LawfulByteMem σ]

theorem printc_goes (h : At p s) (hbacked : Backed videoBase (2 * cells) s.mem) (c : Byte)
    : ∃ s', s.printc c = some s' ∧ Goes (textEnd p [c]) [c] (textLayout p [c]) s s' := by
  by_cases hc : c = newLine
  . refine ⟨_, if_pos hc, ?_, ?_, rfl, hbacked⟩
    . have hend : textEnd p [c] = (p / numColumns + 1) * numColumns := if_pos hc
      rw [hend]
      exact At.nextRow (s := { s with port := s.port ++ [c] }) ⟨h.column, h.row, h.place⟩
    . have hlayout : textLayout p [c] = [] := by
        change (if c = newLine then [] else [(p, c)]) ++ [] = _
        rw [if_pos hc]
        rfl
      rw [hlayout]
      exact .nil
  . have hlt : p % cells < cells := Nat.mod_lt _ (by decide)
    obtain ⟨m', hstore, hcell, hkept⟩ := storeWord_spec (backed_cell hlt hbacked) (green c)
    have hnext : At (p + 1) ({ s with port := s.port ++ [c] } : Screen σ).nextColumn :=
      At.nextColumn ⟨h.column, h.row, h.place⟩
    have hend : textEnd p [c] = p + 1 := if_neg hc
    have hlayout : textLayout p [c] = [(p, c)] := by
      change (if c = newLine then [] else [(p, c)]) ++ [] = _
      rw [if_neg hc]
      rfl
    refine ⟨{ ({ s with port := s.port ++ [c] } : Screen σ).nextColumn with mem := m' }, ?_, ?_, ?_, ?_, ?_⟩
    . unfold Screen.printc
      dsimp only
      rw [if_neg hc, green_eq, cell_eq h, hstore]
      rfl
    . rw [hend]
      exact ⟨hnext.column, hnext.row, hnext.place⟩
    . rw [hlayout]
      exact shows_singleton rfl hlt hcell hkept
    . exact nextColumn_port
    . exact hbacked.storeWord hstore

theorem printAll_goes (h : At p s) (hbacked : Backed videoBase (2 * cells) s.mem) (cs : List Byte)
    : ∃ s', s.printAll cs = some s' ∧ Goes (textEnd p cs) cs (textLayout p cs) s s' := by
  induction cs generalizing p s with
  | nil => exact ⟨s, rfl, h, .nil, (List.append_nil _).symm, hbacked⟩
  | cons c cs ih =>
    obtain ⟨s₁, hprintc, hgoes⟩ := printc_goes h hbacked c
    obtain ⟨s', hrest, hgoes'⟩ := ih hgoes.cursor hgoes.backed
    refine ⟨s', ?_, ?_⟩
    . change (s.printc c).bind (fun s => s.printAll cs) = _
      rw [hprintc]
      exact hrest
    . have htrans := hgoes.trans hgoes'
      unfold textEnd textLayout at *
      rw [← Roll.layout_append, ← Roll.endOf_append] at htrans
      exact htrans

theorem printk_go_eq {string : Addr} (h : At p s) (hbacked : Backed videoBase (2 * cells) s.mem)
    (hstands : Stands s.mem (.printk string cs)) {fuel i : Nat} (hi : i ≤ cs.length)
    (hfuel : cs.length < i + fuel)
    : printk.go string fuel i s = s.printAll (cs.drop i) := by
  induction fuel generalizing p s i with
  | zero => omega
  | succ fuel ih =>
    have hstring := hstands.1
    unfold printk.go
    by_cases hend : i = cs.length
    . subst hend
      rw [hstring.bytes _ _ List.getElem?_concat_length, List.drop_length]
      rfl
    . have hlt : i < cs.length := by omega
      have hchar : (cs ++ [0])[i]? = some cs[i] := by
        rw [List.getElem?_append_left hlt, List.getElem?_eq_getElem hlt]
      have hnul : cs[i] ≠ 0 := fun hzero => hstring.not_nul (hzero ▸ List.getElem_mem hlt)
      obtain ⟨s₁, hprintc, hgoes⟩ := printc_goes h hbacked cs[i]
      rw [hstring.bytes _ _ hchar, Option.bind_some, if_pos hnul, hprintc, List.drop_eq_getElem_cons hlt]
      change _ = (s.printc cs[i]).bind fun s => s.printAll (cs.drop (i + 1))
      rw [hprintc]
      exact ih hgoes.cursor hgoes.backed (hstands.shows hgoes.shows) hlt (by omega)

theorem printcXy_goes (h : At p s) (hbacked : Backed videoBase (2 * cells) s.mem) (c : Byte)
    : ∃ s', s.printcXy 0x00 0x00 c = some s' ∧ Goes p [c] (textLayout 0 [c]) s s' := by
  have hcorner : At 0 ({ s with x := 0x00, y := 0x00 } : Screen σ) :=
    ⟨(by decide : 0 < numColumns), (by decide : 0 < numRows), rfl⟩
  obtain ⟨s₁, hprintc, hgoes⟩ := printc_goes hcorner hbacked c
  refine ⟨{ s₁ with x := s.x, y := s.y }, ?_, ?_⟩
  . unfold printcXy
    rw [hprintc]
    rfl
  . exact ⟨⟨h.column, h.row, h.place⟩, hgoes.shows, hgoes.port, hgoes.backed⟩

theorem echo_goes (h : At p s) (hbacked : Backed videoBase (2 * cells) s.mem) (entrada beyond : Byte)
    : ∃ s', s.echo entrada beyond = some s' ∧
        Goes p (ScreenEvent.key entrada beyond).corner (textLayout 0 (ScreenEvent.key entrada beyond).corner) s s' := by
  unfold echo ScreenEvent.corner
  dsimp only
  split
  . have hc : (if charMap.getD (entrada &&& 0x7f).toNat beyond = 0 then s.printcXy 0x00 0x00 (ascii 'C')
        else s.printcXy 0x00 0x00 (charMap.getD (entrada &&& 0x7f).toNat beyond)) =
        s.printcXy 0x00 0x00 (if charMap.getD (entrada &&& 0x7f).toNat beyond = 0 then ascii 'C'
          else charMap.getD (entrada &&& 0x7f).toNat beyond) := by
      split
      . rfl
      . rfl
    rw [hc]
    exact printcXy_goes h hbacked _
  . exact ⟨s, rfl, h, .nil, (List.append_nil _).symm, hbacked⟩

theorem step_goes (h : At p s) (hbacked : Backed videoBase (2 * cells) s.mem) (e : ScreenEvent)
    (hstands : Stands s.mem e) : ∃ s', step e s = some s' ∧ Goes (textEnd p e.text) e.sent
    (e.prints p) s s' := by
  cases e with
  | printk string cs =>
    obtain ⟨s', hs', hgoes⟩ := printAll_goes h hbacked cs
    refine ⟨s', ?_, ?_⟩
    . have hlen : cs.length < 0 + 2 ^ 32 := by
        rw [Nat.zero_add]
        exact length_lt_of_holdsString hstands.1
      exact (printk_go_eq h hbacked hstands (Nat.zero_le _) hlen).trans hs'
    . unfold ScreenEvent.sent ScreenEvent.prints ScreenEvent.text ScreenEvent.corner
      rw [List.append_nil]
      exact (List.append_nil (textLayout p cs)).symm ▸ hgoes
  | print cs =>
    obtain ⟨s', hs', hgoes⟩ := printAll_goes h hbacked cs
    refine ⟨s', hs', ?_⟩
    unfold ScreenEvent.sent ScreenEvent.prints ScreenEvent.text ScreenEvent.corner
    rw [List.append_nil]
    exact (List.append_nil (textLayout p cs)).symm ▸ hgoes
  | key entrada beyond => exact echo_goes h hbacked entrada beyond

theorem run_goes (h : At p s) (hbacked : Backed videoBase (2 * cells) s.mem) (es : List ScreenEvent)
    (hstands : ∀ e ∈ es, Stands s.mem e) : ∃ s', Run.run step es s = some s' ∧
        Goes (textEnd p (allText es)) (es.flatMap ScreenEvent.sent) (allPrinted p es) s s' := by
  induction es generalizing p s with
  | nil => exact ⟨s, rfl, h, .nil, (List.append_nil _).symm, hbacked⟩
  | cons e es ih =>
    obtain ⟨s₁, hstep, hgoes⟩ := step_goes h hbacked e (hstands e List.mem_cons_self)
    obtain ⟨s', hrun, hgoes'⟩ := ih hgoes.cursor hgoes.backed fun f hf =>
      (hstands f (List.mem_cons_of_mem e hf)).shows hgoes.shows
    refine ⟨s', ?_, ?_⟩
    . rw [Run.run_cons, hstep]
      exact hrun
    . have htrans := hgoes.trans hgoes'
      unfold textEnd at htrans
      rw [← Roll.endOf_append] at htrans
      exact htrans

end Goes

section Text

theorem lastAt_corner {k : Nat} (hk : k ≠ 0) (cs : List Byte) (hcs : cs.length ≤ 1)
    : Roll.lastAt cells k (textLayout 0 cs) = none := by
  apply Roll.lastAt_eq_none
  rintro ⟨q, c⟩ hmem
  match cs, hcs with
  | [], _ => cases hmem
  | [d], _ =>
    have hlayout : textLayout 0 [d] = (if d = newLine then [] else [(0, d)]) ++ [] := rfl
    rw [hlayout, List.append_nil] at hmem
    split at hmem
    . cases hmem
    . obtain ⟨rfl, rfl⟩ := Prod.mk.inj (List.mem_singleton.mp hmem)
      exact fun h => hk h.symm

theorem length_corner (e : ScreenEvent) : e.corner.length ≤ 1 := by
  cases e with
  | printk string cs => exact Nat.zero_le 1
  | print cs => exact Nat.zero_le 1
  | key entrada beyond =>
    unfold ScreenEvent.corner
    dsimp only
    split
    . exact Nat.le_refl 1
    . exact Nat.zero_le 1

theorem lastAt_allPrinted {k : Nat} (hk : k ≠ 0) (es : List ScreenEvent)
    : Roll.lastAt cells k (allPrinted p es) = Roll.lastAt cells k (textLayout p (allText es)) := by
  induction es generalizing p with
  | nil => rfl
  | cons e es ih =>
    have htext : textLayout p (allText (e :: es)) =
        textLayout p e.text ++ textLayout (textEnd p e.text) (allText es) := Roll.layout_append
    rw [htext, allPrinted, ScreenEvent.prints, Roll.lastAt_append, Roll.lastAt_append, Roll.lastAt_append, ih,
      lastAt_corner hk e.corner (length_corner e), Option.none_or]

end Text

end Screen

section Run

variable {σ : Type} [ByteMem σ] [LawfulByteMem σ]

/--
After any run of texts and keys, the last screenful of the texts stands on the screen, each character in its
place, and nothing but the corner has what the keys printed. The port has got all of it in order.
-/
theorem screen_run (es : List ScreenEvent) (s : Screen σ) (hx : s.x.toNat < numColumns)
    (hy : s.y.toNat < numRows)
    (hbacked : Backed videoBase (2 * cells) s.mem) (hstands : ∀ e ∈ es, Screen.Stands s.mem e)
    : ∃ s' p, Run.run Screen.step es s = some s' ∧
        p = textEnd (s.y.toNat * numColumns + s.x.toNat) (allText es) ∧
        s'.x.toNat = p % numColumns ∧ s'.y.toNat = p / numColumns % numRows ∧
        s'.port = s.port ++ es.flatMap ScreenEvent.sent ∧
        (∀ q c, (q, c) ∈ textLayout (s.y.toNat * numColumns + s.x.toNat) (allText es) → p ≤ q + cells →
          q % cells ≠ 0 → loadWord (cellAddr (q % cells)) s'.mem = some (green c)) ∧
        (∀ k < cells, k ≠ 0 →
          (∀ q c, (q, c) ∈ textLayout (s.y.toNat * numColumns + s.x.toNat) (allText es) → q % cells ≠ k) →
          loadWord (cellAddr k) s'.mem = loadWord (cellAddr k) s.mem) ∧
        loadWord (cellAddr 0) s'.mem =
          ((Roll.lastAt cells 0 (allPrinted (s.y.toNat * numColumns + s.x.toNat) es)).map green).or
            (loadWord (cellAddr 0) s.mem) ∧
        ∀ a, ¬InRange videoBase (2 * cells) a → ByteMem.load s'.mem a = ByteMem.load s.mem a := by
  generalize hstart : s.y.toNat * numColumns + s.x.toNat = p₀
  have hcursor : s.At p₀ := by
    refine ⟨hx, hy, ?_⟩
    rw [← hstart, Nat.mod_eq_of_lt]
    unfold cells numRows numColumns at *
    omega
  obtain ⟨s', hrun, hgoes⟩ := Screen.run_goes hcursor hbacked es hstands
  obtain ⟨hcolumn, hrow, hplace⟩ := hgoes.cursor
  have hcolumns : 0 < numColumns := by decide
  have hcell : ∀ k < cells, k ≠ 0 → loadWord (cellAddr k) s'.mem =
      ((Roll.lastAt cells k (textLayout p₀ (allText es))).map green).or (loadWord (cellAddr k) s.mem) := by
    intro k hk hne
    rw [hgoes.shows.cell k hk, Screen.lastAt_allPrinted hne]
  refine ⟨s', _, hrun, rfl, ?_, ?_, hgoes.port, ?_, ?_, hgoes.shows.cell 0 (by decide), hgoes.shows.kept⟩
  . unfold cells numRows numColumns at *
    omega
  . unfold cells numRows numColumns at *
    omega
  . intro q c hmem hnear hne
    have hlast : Roll.lastAt cells (q % cells) (textLayout p₀ (allText es)) = some c := by
      apply Roll.lastAt_of_mem (Roll.pairwise_layout hcolumns) hmem
      intro e he
      exact Nat.lt_of_lt_of_le (Roll.bounds_of_mem_layout hcolumns he).2 hnear
    rw [hcell _ (Nat.mod_lt _ (by decide)) hne, hlast]
    rfl
  . intro k hk hne hnone
    rw [hcell k hk hne, Roll.lastAt_eq_none fun e he => hnone e.1 e.2 he]
    rfl

/-- The kernel's message in row 19, where the text begins at boot, the key in the corner, a text of two rows -/
theorem screen_run_boot
    : ∃ s' : Screen FlatMem, Run.run Screen.step [.printk 0x10000 [75], .key 0x1e 0, .print [newLine, 42]]
        ⟨0, 19, [], fun a => if a = 0x10000 then 75 else 0⟩ = some s' ∧
      s'.port = [75, 97, 10, 42] ∧ s'.x.toNat = 1 ∧ s'.y.toNat = 20 ∧
      loadWord (cellAddr 1520) s'.mem = some (green 75) ∧ loadWord (cellAddr 1600) s'.mem = some (green 42) ∧
      loadWord (cellAddr 0) s'.mem = some (green 97) := by
  obtain ⟨s', p, hrun, hp, hx, hy, hport, htext, -, hcorner, -⟩ :=
    screen_run [.printk 0x10000 [75], .key 0x1e 0, .print [newLine, 42]]
      ⟨0, 19, [], fun a => if a = 0x10000 then 75 else 0⟩ (by decide) (by decide) (backed_flat _) (by
        intro e he
        rcases List.mem_cons.mp he with rfl | he
        . refine ⟨⟨?_, by decide⟩, by decide⟩
          intro i c hc
          match i, hc with
          | 0, hc => cases hc; rfl
          | 1, hc => cases hc; rfl
        rcases List.mem_cons.mp he with rfl | he
        . trivial
        rcases List.mem_cons.mp he with rfl | he
        . trivial
        . cases he)
  have hend : p = 1601 := hp.trans (by decide)
  subst hend
  refine ⟨s', hrun, hport.trans (by decide), hx.trans (by decide), hy.trans (by decide), ?_, ?_, ?_⟩
  . exact htext 1520 75 (by decide) (by decide) (by decide)
  . exact htext 1600 42 (by decide) (by decide) (by decide)
  . exact hcorner.trans (by decide)

end Run

end Zeos
