-- SUMMARY: What memory a context switch touches: the two struct copies reach eight bytes beyond the kernel stack.
import SecOS.Exam.Sample

/-!
# Frame of the context switch

The block the service routine leaves on the stack is 13 words long, an `int_ctx_t` has
15. The copy into `tasks[]` therefore reads two words that lie above the kernel stack,
and the copy back, made for a task that was saved before, writes them.
-/

namespace SecOS

open X86

/-- A byte of the kernel stack of task `i`. -/
def InKernelStack (i : Fin 2) (b : Word) : Prop := Within (kernelStackTop i - 4096) 4096 b

namespace Machine

variable {img : Image} {σ : Scratch} {s s' s₀ : Machine} {cur : Option (Fin 2)} {i : Fin 2}

/-- What a clock interrupt of task `i` should touch: it changes no memory but the kernel
stack of the task, and what it saves does not depend on memory outside that stack. -/
structure SwitchFrame (img : Image) (σ : Scratch) (s : Machine) (i : Fin 2) : Prop where
  writes : ∀ s', step img s (.irq 0 σ) = some s' → ∀ b, s'.mem b ≠ s.mem b → InKernelStack i b
  reads : ∀ m, (∀ b, InKernelStack i b → m b = s.mem b) →
    ∀ s' t', step img s (.irq 0 σ) = some s' → step img { s with mem := m } (.irq 0 σ) = some t' →
      (t'.tasks i).context = (s'.tasks i).context

/-! ## What is read -/

/-- The last two words of the saved context are the two words above the stack. -/
theorem context_clockDone (hm : UserMode s i) :
    ((s.clockDone img σ (some i)).tasks i).context = s.isrCtx := by
  have hcpl : s.cpu.cpl ≠ 0 := by rw [hm.cpl]; decide
  simp only [clockDone, savedTasks_apply, if_true, isrSaved, load_isrPushed hcpl]

theorem context_of_step (h : Inv img s (some i)) (hstep : step img s (.irq 0 σ) = some s') :
    (s'.tasks i).context = s.isrCtx := by
  rw [step_irq_zero h] at hstep
  split at hstep
  · rw [← Option.some.inj hstep]
    exact context_clockDone (h.mode.withPics (servicing s.pics 0))
  · cases hstep

/-! ## What is written -/

/-- Bytes changed by a switch lie in the stack or in the eight bytes above it, and in
the stack when the next task has never run. -/
theorem clockMem_eq (hm : UserMode s i) {b : Word}
    (hb : ¬ Within (kernelStackTop i - 2048)
      (if (s.tasks i.rev).contextSaved = 1 then 2056 else 2048) b) :
    clockMem img σ s (some i) b = s.mem b := by
  have hlen := length_isrPushed_user hm
  have hdepth := img.cDepth_le
  have hframe := img.frameSize_le
  have hpos := img.frameSize_pos
  have hpush : s.mem.pushWords (kernelStackTop i) s.isrPushed b = s.mem b := by
    refine Mem.pushWords_not_within ?_ (by omega)
    rw [hlen]
    split at hb <;>
      · simp only [Within, Mem.below] at *
        bv_omega
  simp only [clockMem, frameTop_of_userMode hm, isrSp_of_userMode hm, nextOf]
  split
  · next hsaved =>
    rw [if_pos hsaved] at hb
    rw [Mem.blit_not_within, Mem.writeWords_not_within, hpush]
    · rw [IntCtx.length_words, intCtxWords]
      simp only [Within, Mem.below] at *
      bv_omega
    · rw [IntCtx.length_words]
      decide
    · simp only [Within, Mem.below] at *
      bv_omega
  · next hsaved =>
    rw [if_neg hsaved] at hb
    rw [Mem.pushWords_not_within, Mem.blit_not_within, hpush]
    · simp only [Within, Mem.below] at *
      bv_omega
    · simp only [Within, Mem.below, List.length_cons, List.length_nil] at *
      bv_omega
    · simp

/-- A switch to a task that was saved before puts the two stray words of its context
over whatever lies above the kernel stack. -/
theorem clockMem_above (hm : UserMode s i) (hsaved : (s.tasks i.rev).contextSaved = 1) :
    (clockMem img σ s (some i)).readWords (kernelStackTop i) 2
      = [(s.tasks i.rev).context.esp, (s.tasks i.rev).context.ss] := by
  have hdepth := img.cDepth_le
  have htop : kernelStackTop i = Mem.below (kernelStackTop i) 13 + BitVec.ofNat 32 (4 * 13) := by
    simp only [Mem.below]
    bv_omega
  have hwords := Mem.readWords_writeWords (s.mem.pushWords (kernelStackTop i) s.isrPushed)
    (Mem.below (kernelStackTop i) 13) (s.tasks i.rev).context.words (by simp [intCtxWords])
  simp only [clockMem, frameTop_of_userMode hm, isrSp_of_userMode hm, nextOf, hsaved, if_true]
  rw [htop, Mem.readWords_slice _ _ (n := intCtxWords) (by decide), ← htop,
    Mem.readWords_blit_below (by simp only [intCtxWords]; omega)]
  exact congrArg (fun ws => (ws.drop 13).take 2) hwords

/-! ## The frame condition -/

/-- Another word above the stack gives another saved context. -/
theorem not_switchFrame (h : Inv img s (some i)) (hstep : step img s (.irq 0 σ) = some s') :
    ¬ SwitchFrame img σ s i := by
  intro hframe
  have hm : UserMode s i := h.mode
  have hk := h.kernel
  obtain ⟨m, hm'⟩ : ∃ m,
      m = s.mem.write32 (kernelStackTop i) (s.mem.read32 (kernelStackTop i) + 1) := ⟨_, rfl⟩
  have hsame (b : Word) (hb : ¬ Within (kernelStackTop i) 4 b) : m b = s.mem b := by
    rw [hm', Mem.write32_not_within hb]
  have harea (b : Word) (hb : ¬ StackArea (kernelStackTop i) b) : m b = s.mem b := by
    refine hsame b fun hin => hb ?_
    simp only [StackArea, Within] at *
    bv_omega
  have htop : KernelTop (kernelStackTop i) := .inr ⟨i, rfl⟩
  have hinv : Inv img { s with mem := m } (some i) :=
    { kernel := hk.frame htop.sp harea
      pics := h.pics
      mode := hm.withCpu hm.regs hm.shadow rfl }
  have hstack (b : Word) (hb : InKernelStack i b) : m b = s.mem b := by
    refine hsame b fun hin => ?_
    simp only [InKernelStack, Within] at *
    bv_omega
  obtain ⟨t', ht'⟩ : ∃ t', step img { s with mem := m } (.irq 0 σ) = some t' := by
    rw [step_irq_zero h] at hstep
    split at hstep
    · next hserved =>
      rw [step_irq_zero hinv]
      exact ⟨_, if_pos hserved⟩
    · cases hstep
  have hread := hframe.reads m hstack s' t' hstep ht'
  rw [context_of_step h hstep, context_of_step hinv ht'] at hread
  have hesp := congrArg IntCtx.esp hread
  simp only [isrCtx, frameTop_of_userMode hm] at hesp
  have htop' : ({ s with mem := m } : Machine).frameTop = kernelStackTop i :=
    frameTop_of_userMode hinv.mode
  rw [htop', hm', Mem.read32_write32] at hesp
  bv_omega

/-- No clock interrupt of a task keeps to the frame. -/
theorem not_switchFrame_of_run {es : List Event} (hboot : Booted img s₀)
    (hes : ∀ e ∈ es, SparesPics e) (hrun : Lts.run (step img) s₀ es = some s)
    (hcpl : s.cpu.cpl = 3) (hstep : step img s (.irq 0 σ) = some s') :
    ∃ i, s.currentTaskIdx = idxWord (some i) ∧ ¬ SwitchFrame img σ s i := by
  have hinv := hboot.inv_run hes hrun
  obtain ⟨i, hcur, hm⟩ := hinv.mode.task_of_cpl hcpl
  rw [hcur] at hinv
  exact ⟨i, hm.currentTaskIdx, not_switchFrame hinv hstep⟩

theorem not_switchFrame_of_run_sampleTask :
    ∃ i, sampleTask.currentTaskIdx = idxWord (some i)
      ∧ ¬ SwitchFrame sampleImage sampleScratch sampleTask i :=
  not_switchFrame_of_run booted_sample (by simp [SparesPics]) run_sampleTask rfl
    ((step_irq_zero inv_sampleTask).trans (if_pos ⟨rfl, rfl⟩))

/-- The first switch away from task 0 already reads beyond its stack. -/
theorem switchFrame_fails_sampleTask : ¬ SwitchFrame sampleImage sampleScratch sampleTask 0 :=
  not_switchFrame inv_sampleTask ((step_irq_zero inv_sampleTask).trans (if_pos ⟨rfl, rfl⟩))

end Machine

end SecOS
