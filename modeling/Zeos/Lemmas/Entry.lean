import Zeos.Spec.Entry

/-!
The two handlers of system calls, compared with each other and with the table they call through.
-/

namespace Zeos

@[simp]
theorem maxSyscall_eq : maxSyscall = 36 := by
  rfl

section Handlers

variable (call : Int → Regs → Kernel → BitVec 32 × Kernel) {regs : Regs} {k : Kernel}

theorem handlers_of_inTable (h : InTable regs.eax)
    : systemCallHandler call regs k = syscallHandlerSysenter call regs k ∧
        (systemCallHandler call regs k).called = some regs.eax.toInt := by
  obtain ⟨hlo, hhi⟩ := h
  have hlt : ¬regs.eax.toInt < 0 := by omega
  have hgt : ¬regs.eax.toInt > maxSyscall := by
    simp only [maxSyscall]
    omega
  simp only [systemCallHandler, syscallHandlerSysenter, if_neg hlt, if_neg hgt, and_self]

/--
The comparison with `MAX_SYSCALL` lets one number through that has no entry.
-/
theorem systemCallHandler_called_of_eq (h : regs.eax.toInt = maxSyscall)
    : (systemCallHandler call regs k).called = some maxSyscall := by
  have hlt : ¬regs.eax.toInt < 0 := by simp [h]
  have hgt : ¬regs.eax.toInt > maxSyscall := by omega
  simp only [systemCallHandler, if_neg hlt, if_neg hgt]
  rw [h]

theorem handlers_of_error (h : regs.eax.toInt < 0 ∨ regs.eax.toInt > maxSyscall)
    : systemCallHandler call regs k =
          { called := none, eax := notImplemented, kernel := k.statsEntrySys } ∧
        syscallHandlerSysenter call regs k =
          { called := none, eax := notImplemented, kernel := k.statsEntrySys.statsLeaveSys } := by
  unfold systemCallHandler syscallHandlerSysenter
  rcases h with h | h
  . simp only [if_pos h, and_self]
  . have hlt : ¬regs.eax.toInt < 0 := by
      rw [maxSyscall_eq] at h
      omega
    simp only [if_pos h, if_neg hlt, and_self]

end Handlers

theorem statsEntrySys_stats (k : Kernel)
    : (k.statsEntrySys.task k.statsEntrySys.current).estadisticas =
        (k.task k.current).estadisticas.addUser k.readings.statsEntrySys := by
  simp [Kernel.statsEntrySys, Kernel.setStats, Kernel.setTask]

theorem statsLeaveSys_stats (k : Kernel)
    : (k.statsLeaveSys.task k.statsLeaveSys.current).estadisticas =
        (k.task k.current).estadisticas.addSystem k.readings.statsLeaveSys := by
  simp [Kernel.statsLeaveSys, Kernel.setStats, Kernel.setTask]

/--
For a number without an entry, the times agree if the call of `statsLeaveSys` that only one of the
handlers makes adds nothing.
-/
theorem sameResult_of_error_iff (call : Int → Regs → Kernel → BitVec 32 × Kernel) {regs : Regs}
    {k : Kernel} (h : regs.eax.toInt < 0 ∨ regs.eax.toInt > maxSyscall)
    : SameResult (systemCallHandler call regs k) (syscallHandlerSysenter call regs k) ↔
        NoTimeInside k.readings := by
  obtain ⟨h80, hsysenter⟩ := handlers_of_error call (k := k) h
  rw [h80, hsysenter]
  simp only [SameResult, Handled.stats, statsLeaveSys_stats, statsEntrySys_stats]
  have hreadings : k.statsEntrySys.readings = k.readings := by rfl
  simp only [hreadings, Stats.addUser, Stats.addSystem, true_and, NoTimeInside, Prod.ext_iff]
  constructor
  . rintro ⟨hsystem, helapsed⟩
    refine ⟨?_, helapsed.symm⟩
    bv_omega
  . rintro ⟨hsystem, helapsed⟩
    refine ⟨?_, helapsed.symm⟩
    rw [hsystem]
    bv_omega

/--
The handlers do what they should for the numbers of the table, and besides only when an error takes no
time at all.
-/
theorem handlers_agree_iff (call : Int → Regs → Kernel → BitVec 32 × Kernel) (regs : Regs) (k : Kernel)
    : (Dispatches regs (systemCallHandler call regs k) ∧
          Dispatches regs (syscallHandlerSysenter call regs k) ∧
          SameResult (systemCallHandler call regs k) (syscallHandlerSysenter call regs k)) ↔
        InTable regs.eax ∨ (regs.eax.toInt ≠ maxSyscall ∧ NoTimeInside k.readings) := by
  by_cases htable : InTable regs.eax
  . obtain ⟨heq, hcalled⟩ := handlers_of_inTable call (k := k) htable
    simp [Dispatches, SameResult, ← heq, hcalled, htable]
  . have hrange : regs.eax.toInt = maxSyscall ∨ regs.eax.toInt < 0 ∨ regs.eax.toInt > maxSyscall := by
      simp only [InTable, maxSyscall] at htable ⊢
      omega
    rcases hrange with hmax | herror
    . have hcalled := systemCallHandler_called_of_eq call (k := k) hmax
      simp [Dispatches, htable, hcalled, hmax]
    . obtain ⟨h80, hsysenter⟩ := handlers_of_error call (k := k) herror
      have hne : regs.eax.toInt ≠ maxSyscall := by
        rw [maxSyscall_eq] at *
        omega
      rw [sameResult_of_error_iff call herror, h80, hsysenter]
      simp only [Dispatches, htable, if_false, not_false_eq_true, true_imp_iff, and_self, true_and,
        false_or, hne, ne_eq]

/--
With `%eax` equal to `MAX_SYSCALL`, both handlers call through the word behind the table.
-/
theorem handlers_call_past_table
    : ¬(Dispatches ⟨36, 0, 0, 0, 0, 0, 0⟩ (systemCallHandler (fun _ _ k => (0, k))
            ⟨36, 0, 0, 0, 0, 0, 0⟩ (Sys.zero fun _ _ => 0).toKernel) ∨
        Dispatches ⟨36, 0, 0, 0, 0, 0, 0⟩ (syscallHandlerSysenter (fun _ _ k => (0, k))
            ⟨36, 0, 0, 0, 0, 0, 0⟩ (Sys.zero fun _ _ => 0).toKernel)) := by
  rintro (h | h)
  . exact absurd h.1 (by decide)
  . exact absurd h.1 (by decide)

end Zeos
