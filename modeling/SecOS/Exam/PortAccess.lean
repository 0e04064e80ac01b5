-- SUMMARY: Which ports level 3 can access: the task state segment is its own permission bitmap, and nearly all of it is zero.
import SecOS.Exam.Preemption

/-!
# Port access of level 3

The base of the I/O permission bitmap is never set, so the bitmap begins at the task
state segment itself. What a task may do at a port is then decided by the bytes of that
segment: only the ones of `s0.esp` and `s0.ss` have bits set.
-/

namespace SecOS

open X86

/-! ## The segment as a bitmap -/

/-- The ports whose bit is set while the kernel stack is that of task `i`. -/
def closedPorts : Fin 2 → List Nat
  | 0 => [44, 51, 52, 53, 68]
  | 1 => [44, 48, 51, 52, 53, 68]

theorem byteAt_kernelTss_zero (esp0 : Word) {k : Nat} (h : 12 ≤ k) :
    (kernelTss esp0).byteAt k = 0 := by
  have hword (w : Nat) : (Vector.replicate 18 (0 : Word))[w]?.getD 0 = 0 := by
    rw [Vector.getElem?_replicate]
    split <;> rfl
  have hmaps (n w : Nat) : (Vector.replicate n (0 : Byte))[w]?.getD 0 = 0 := by
    rw [Vector.getElem?_replicate]
    split <;> rfl
  have hbyte (j : Nat) : Mem.byteOf 0 j = 0 := by simp [Mem.byteOf]
  have hfield (j : Nat) : field (0 : BitVec 16) j 8 = 0 := by simp [field]
  have hstack (j : Nat) : TssStack.byteAt ⟨0, 0, 0⟩ j = 0 := by
    simp only [TssStack.byteAt, hbyte, hfield, ite_self]
  have hno : ¬ k < 4 ∧ ¬ k < 12 := by omega
  simp only [Tss.byteAt, kernelTss, Tss.zero, hno, if_false, hstack, hword, hbyte, hfield,
    TssMaps.byteAt, hmaps, ite_self]

/-- A bit of the segment that is read as the bit of port `q`. -/
theorem bit_kernelTss (i : Fin 2) (q : Nat) :
    ((kernelTss (kernelStackTop i)).byteAt (q / 8)).getLsbD (q % 8)
      = decide (q ∈ closedPorts i) := by
  by_cases h : q < 96
  · match i with
    | 0 => interval_cases q <;> rfl
    | 1 => interval_cases q <;> rfl
  · rw [byteAt_kernelTss_zero _ (by omega)]
    have hnot : q ∉ closedPorts i := by
      match i with
      | 0 => simp only [closedPorts, List.mem_cons, List.not_mem_nil, or_false]; omega
      | 1 => simp only [closedPorts, List.mem_cons, List.not_mem_nil, or_false]; omega
    simp [hnot]

namespace Machine

variable {img : Image} {s s₀ : Machine} {cur : Option (Fin 2)}

theorem lookup_tsSel (tss : Word) :
    (examGdt tss).lookup tsSel = some (setTr (createTssDsc tss)) := rfl

/-- The processor's check, where a task runs. -/
theorem ioPermitted_iff {i : Fin 2} (hk : Kernel img s) (hm : UserMode s i)
    {port width : Nat} (hport : port < 65536) (hwidth : width ≤ 4) :
    s.ioPermitted port width = true ↔ ∀ k < width, port + k ∉ closedPorts i := by
  have hmode : Mode img s (some i) := hm
  have hiopl := hmode.iopl
  have hlevel : (3 : BitVec 2).ule 0 = false := rfl
  have htss : s.tss = kernelTss (kernelStackTop i) := by
    have htss := hk.tss
    rwa [hm.esp0] at htss
  have hbase : (kernelTss (kernelStackTop i)).maps.addr.toNat = 0 := rfl
  have hlimit : (BitVec.ofNat 32 sizeofTss).toNat = 8329 := rfl
  simp only [ioPermitted, hm.cpl, hiopl, hlevel, Bool.false_eq_true, if_false, hk.gdt,
    lookup_tsSel, limit_setTr_createTssDsc, htss, hbase, hlimit, ioAllowed, Nat.zero_add,
    bit_kernelTss, decide_eq_true_eq, decide_eq_false_iff_not]
  constructor
  · intro h k hk
    exact (h k hk).2
  · intro h k hk
    exact ⟨by omega, h k hk⟩

/-! ## Over runs -/

/-- The widths of an access. -/
def portWidths : List Nat := [1, 2, 4]

/-- In every state of a run an access of level 3 is refused exactly when it touches one
of the few ports whose bit happens to be set in the stack pointer and the selector of
the kernel stack. -/
theorem portRefused_iff_of_run {es : List Event} (hboot : Booted img s₀)
    (hes : ∀ e ∈ es, SparesPics e) (hrun : Lts.run (step img) s₀ es = some s)
    (hcpl : s.cpu.cpl = 3) :
    ∃ i, s.currentTaskIdx = idxWord (some i) ∧
      ∀ port < 65536, ∀ width ∈ portWidths,
        (s.ioPermitted port width = false ↔ ∃ k < width, port + k ∈ closedPorts i) := by
  have hinv := hboot.inv_run hes hrun
  obtain ⟨i, hcur, hm⟩ := hinv.mode.task_of_cpl hcpl
  refine ⟨i, hm.currentTaskIdx, fun port hport width hwidth => ?_⟩
  have hle : width ≤ 4 := by
    simp only [portWidths, List.mem_cons, List.not_mem_nil, or_false] at hwidth
    omega
  rw [← Bool.not_eq_true, ioPermitted_iff hinv.kernel hm hport hle]
  push Not
  rfl

theorem portRefused_iff_sampleTask :
    ∃ i, sampleTask.currentTaskIdx = idxWord (some i) ∧
      ∀ port < 65536, ∀ width ∈ portWidths,
        (sampleTask.ioPermitted port width = false ↔ ∃ k < width, port + k ∈ closedPorts i) :=
  portRefused_iff_of_run booted_sample (by simp [SparesPics]) run_sampleTask rfl

/-- Task 0 may write to the mask of the first interrupt controller. -/
theorem picMask_writable :
    ¬ ∀ img s₀ s es, Booted img s₀ → (∀ e ∈ es, SparesPics e) →
        Lts.run (step img) s₀ es = some s → s.cpu.cpl = 3 →
        ∀ port < 65536, ∀ width ∈ portWidths, s.ioPermitted port width = false := by
  intro hall
  have hrefused := hall sampleImage sample sampleTask [.irq 0 sampleScratch] booted_sample
    (by simp [SparesPics]) run_sampleTask rfl 0x21 (by decide) 1 (by decide)
  have hpermitted : sampleTask.ioPermitted 0x21 1 = true :=
    (ioPermitted_iff inv_sampleTask.kernel inv_sampleTask.mode (by decide) (by decide)).mpr
      (by decide)
  rw [hpermitted] at hrefused
  cases hrefused

end Machine

end SecOS
