-- SUMMARY: What a task can learn from a system call: exactly when the line printed depends on no secret byte.
import SecOS.Exam.Isolation

/-!
# Confidentiality of the system call

`syscall_handler` reads the caller's pointer with the rights of the kernel. Two memories
that are the same for the task give the same line only where the pointer leads to bytes
the task can read anyway, to page tables or code, or to what the entry itself has just
pushed.
-/

namespace SecOS

open X86

namespace Machine

variable {img : Image} {σ : Scratch} {s s' s₀ : Machine} {i : Fin 2} {code : Word → Prop}
variable {b va : Word} {m : Mem}

/-! ## Two runs -/

def withMem (s : Machine) (mem : Mem) : Machine := { s with mem }

/-- A byte that is no secret to task `i`: one it can access, one of a page table, or one
of the code. -/
def Public (code : Word → Prop) (m : Mem) (i : Fin 2) (b : Word) : Prop :=
  UserReachable m i b ∨ Within tablesBase tablesSize b ∨ code b

/-- The call printed the line and went back behind the `int`. -/
structure Printed (s s' : Machine) (line : Line) : Prop where
  console : s'.console = s.console ++ [line]
  regs : regsOf s'.cpu = regsOf s.afterInt.cpu

/-- In any two memories that differ in secrets only, the system call prints the same line
and returns. -/
def Confidential (img : Image) (code : Word → Prop) (s : Machine) (i : Fin 2) : Prop :=
  ∀ m₁ m₂ σ₁ σ₂, (∀ b, Within tablesBase tablesSize b → m₁ b = s.mem b) →
    Mem.Agree (Public code s.mem i) m₁ m₂ →
    ∃ line s₁ s₂, step img (s.withMem m₁) (.int 0x80 σ₁) = some s₁ ∧
      step img (s.withMem m₂) (.int 0x80 σ₂) = some s₂ ∧
      Printed s s₁ line ∧ Printed s s₂ line

/-- The bytes that the entry of a system call writes: the frame of the interrupt, the
registers, and the return address of the handler. -/
def OnEntryFrame (i : Fin 2) (b : Word) : Prop := Within (kernelStackTop i - 56) 56 b

/-- The pointer may be dereferenced for the task: the byte is mapped, and no secret. -/
def Disclosable (code : Word → Prop) (s : Machine) (i : Fin 2) (va : Word) : Prop :=
  ∃ t, walk s.mem s.cpu.cr3 va = some t ∧ (Public code s.mem i t.pa ∨ OnEntryFrame i t.pa)

/-- Where the kernel works on behalf of a task. -/
def OnKernelStack (b : Word) : Prop := ∃ i, StackArea (kernelStackTop i) b

/-! ## Memory at the read -/

theorem Inv.withMem (h : Inv img s (some i)) (hm : TablesOk m) :
    Inv img (s.withMem m) (some i) where
  kernel := { h.kernel with tables := hm }
  pics := h.pics
  mode :=
    have hu : UserMode s i := h.mode
    { hu with }

/-- The call is made from 52 bytes below the top of the kernel stack. -/
theorem syscallCall_of_userMode (img : Image) (hm : UserMode s i) (m : Mem) :
    (syscallCall img (s.withMem m)).cpu.esp = kernelStackTop i - 52 ∧
      (syscallCall img (s.withMem m)).mem = m.pushWords (kernelStackTop i) s.isrPushed := by
  obtain ⟨hmem, hesp⟩ := syscallCall_eq img (s.withMem m)
  have hsp : (s.withMem m).isrSp = s.isrSp := rfl
  have hpush : (s.withMem m).mem.pushWords (s.withMem m).frameTop (s.withMem m).isrPushed
      = m.pushWords s.frameTop s.isrPushed := rfl
  rw [hesp, hmem, hsp, hpush, isrSp_of_userMode hm, frameTop_of_userMode hm]
  exact ⟨rfl, rfl⟩

/-- What the entry writes depends on the registers alone. -/
theorem syscallMem_onEntryFrame (hm : UserMode s i) (m₁ m₂ : Mem) (σ₁ σ₂ : Scratch)
    (hb : OnEntryFrame i b) :
    syscallMem img σ₁ (s.withMem m₁) b = syscallMem img σ₂ (s.withMem m₂) b := by
  have hlen := length_isrPushed_user hm
  obtain ⟨hesp₁, hmem₁⟩ := syscallCall_of_userMode img hm m₁
  obtain ⟨hesp₂, hmem₂⟩ := syscallCall_of_userMode img hm m₂
  have hframe := img.frameSize_le
  have hdepth := img.cDepth_le
  unfold OnEntryFrame at hb
  unfold syscallMem enterC
  simp only [hesp₁, hesp₂, hmem₁, hmem₂]
  -- the return address lies lowest, then what was pushed; the rest of the frame is below
  by_cases hret : Within (kernelStackTop i - 52 - 4) 4 b
  · unfold Mem.write32
    rw [Mem.blit_within hret, Mem.blit_within hret]
  · have hout :
        ¬ Within (kernelStackTop i - 52 - BitVec.ofNat 32 img.frameSize) img.frameSize b := by
      simp only [Within] at *
      bv_omega
    rw [Mem.write32_not_within hret, Mem.write32_not_within hret, Mem.blit_not_within hout,
      Mem.blit_not_within hout]
    refine Mem.pushWords_within m₁ m₂ ?_ (by omega)
    rw [hlen]
    simp only [Within, Mem.below] at *
    bv_omega

/-- Every other byte is still there or has been overwritten by the handler's own frame. -/
theorem syscallMem_of_not_onEntryFrame (hm : UserMode s i) {x : Byte} (hmem : m b = x)
    (hstack : ∀ j, σ.stack j = x) (hb : ¬ OnEntryFrame i b) :
    syscallMem img σ (s.withMem m) b = x := by
  have hlen := length_isrPushed_user hm
  obtain ⟨hesp, hpush⟩ := syscallCall_of_userMode img hm m
  unfold OnEntryFrame at hb
  unfold syscallMem enterC
  simp only [hesp, hpush]
  rw [Mem.write32_not_within (by simp only [Within] at *; bv_omega)]
  by_cases hframe : Within (kernelStackTop i - 52 - BitVec.ofNat 32 img.frameSize) img.frameSize b
  · rw [Mem.blit_within hframe]
    exact hstack _
  · rw [Mem.blit_not_within hframe]
    refine (Mem.pushWords_not_within ?_ (by omega)).trans hmem
    rw [hlen]
    simp only [Within, Mem.below] at *
    bv_omega

/-- A byte that is no secret lies on no kernel stack. -/
theorem Public.not_stackArea (htables : TablesOk m) (hcode : ∀ b, code b → ¬ OnKernelStack b)
    (h : Public code m i b) : ¬ StackArea (kernelStackTop i) b := by
  intro harea
  have htop : KernelTop (kernelStackTop i) := .inr ⟨i, rfl⟩
  rcases h with ⟨va, hva⟩ | htable | hc
  · rw [userTranslate_pgdOf htables] at hva
    have hge := userMap_ge hva
    have hlt := htop.stackArea_lt harea
    omega
  · exact htop.sp.not_tables harea htable
  · exact hcode b hc ⟨i, harea⟩

/-- So it is read as it is. -/
theorem syscallMem_public (hm : UserMode s i) (h : ¬ StackArea (kernelStackTop i) b) :
    syscallMem img σ (s.withMem m) b = m b := by
  have htop : (s.withMem m).frameTop = s.frameTop := rfl
  refine enterC_isrCall_area (s := s.withMem m) ?_
  rw [htop, frameTop_of_userMode hm]
  exact h

/-! ## The read -/

theorem walk_congr {m m' : Mem} (hm : TablesOk m) (hm' : TablesOk m') :
    walk m' (pgdOf i) va = walk m (pgdOf i) va := by
  rw [walk_pgdOf hm, walk_pgdOf hm']

/-- The tables are still in place when the handler reads. -/
theorem tablesOk_syscallMem (hm : UserMode s i) (ht : TablesOk m) :
    TablesOk (syscallMem img σ (s.withMem m)) := by
  have htop : KernelTop (kernelStackTop i) := .inr ⟨i, rfl⟩
  exact htop.sp.tablesOk ht fun b hb => syscallMem_public hm hb

theorem readByte_syscallMem (hm : UserMode s i) (hs : TablesOk s.mem) (ht : TablesOk m) :
    readByte (syscallMem img σ (s.withMem m)) (pgdOf i) va
      = (walk s.mem (pgdOf i) va).map fun t => syscallMem img σ (s.withMem m) t.pa := by
  rw [readByte, walk_congr hs (tablesOk_syscallMem hm ht)]

/-- The system call in another memory. -/
theorem step_withMem (h : Inv img s (some i)) (ht : TablesOk m) :
    step img (s.withMem m) (.int 0x80 σ)
      = if s.dataUsable = true then
          (readLinear (syscallMem img σ (s.afterInt.withMem m)) (pgdOf i) s.cpu.eax).map
            ((s.afterInt.withMem m).syscallDone img σ)
        else none := by
  have hm : UserMode s i := h.mode
  rw [← hm.cr3]
  exact step_syscall (h.withMem ht)

theorem readLinear_of_printed (h : Inv img s (some i)) (ht : TablesOk m) {line : Line}
    (hstep : step img (s.withMem m) (.int 0x80 σ) = some s') (hline : Printed s s' line) :
    s.dataUsable = true ∧ ∃ w, line = syscallLine w ∧
      readLinear (syscallMem img σ (s.afterInt.withMem m)) (pgdOf i) s.cpu.eax = some w := by
  rw [step_withMem h ht] at hstep
  split at hstep
  · next hdata =>
    obtain ⟨w, hw, hs'⟩ := Option.map_eq_some_iff.mp hstep
    refine ⟨hdata, w, ?_, hw⟩
    have hconsole := hline.console
    rw [← hs'] at hconsole
    exact (List.singleton_inj.mp (List.append_cancel_left hconsole)).symm
  · cases hstep

theorem printed_syscallDone (s : Machine) (m : Mem) (w : Word) :
    Printed s ((s.afterInt.withMem m).syscallDone img σ w) (syscallLine w) := ⟨rfl, rfl⟩

/-- A pointer to public bytes gives nothing away. -/
theorem confidential_of_disclosable (h : Inv img s (some i))
    (hcode : ∀ b, code b → ¬ OnKernelStack b) (hdata : s.dataUsable = true)
    (hptr : ∀ k < 4, Disclosable code s i (s.cpu.eax + BitVec.ofNat 32 k)) :
    Confidential img code s i := by
  intro m₁ m₂ σ₁ σ₂ htables hagree
  have hm : UserMode s.afterInt i := UserMode.afterInt h.mode
  have ht₁ : TablesOk m₁ := h.kernel.tables.congr htables
  have ht₂ : TablesOk m₂ := ht₁.congr fun b hb => hagree b (.inr (.inl hb))
  have hbyte : ∀ k < 4, ∃ x,
      readByte (syscallMem img σ₁ (s.afterInt.withMem m₁)) (pgdOf i)
        (s.cpu.eax + BitVec.ofNat 32 k) = some x ∧
      readByte (syscallMem img σ₂ (s.afterInt.withMem m₂)) (pgdOf i)
        (s.cpu.eax + BitVec.ofNat 32 k) = some x := by
    intro k hk
    obtain ⟨t, hwalk, hpub⟩ := hptr k hk
    rw [UserMode.cr3 h.mode] at hwalk
    have hwalk' : walk s.afterInt.mem (pgdOf i) (s.cpu.eax + BitVec.ofNat 32 k) = some t := hwalk
    refine ⟨syscallMem img σ₁ (s.afterInt.withMem m₁) t.pa, ?_, ?_⟩
    · rw [readByte_syscallMem hm h.kernel.tables ht₁, hwalk']
      rfl
    · rw [readByte_syscallMem hm h.kernel.tables ht₂, hwalk', Option.map_some]
      refine congrArg some ?_
      rcases hpub with hpub | hframe
      · have harea := hpub.not_stackArea h.kernel.tables hcode
        rw [syscallMem_public hm harea, syscallMem_public hm harea]
        exact hagree t.pa hpub
      · exact syscallMem_onEntryFrame hm m₂ m₁ σ₂ σ₁ hframe
  obtain ⟨w, hw₁⟩ := readLinear_eq_some.mpr fun k hk => (hbyte k hk).imp fun _ hx => hx.1
  have hw₂ := readLinear_congr fun k hk => by
    obtain ⟨x, hx₁, hx₂⟩ := hbyte k hk
    exact hx₂.trans hx₁.symm
  rw [hw₁] at hw₂
  have hstep₁ := step_withMem (σ := σ₁) h ht₁
  have hstep₂ := step_withMem (σ := σ₂) h ht₂
  rw [if_pos hdata, hw₁, Option.map_some] at hstep₁
  rw [if_pos hdata, hw₂, Option.map_some] at hstep₂
  exact ⟨syscallLine w, _, _, hstep₁, hstep₂, printed_syscallDone s m₁ w,
    printed_syscallDone s m₂ w⟩

/-- And nothing else does: another value of a secret byte gives another line. -/
theorem disclosable_of_confidential (h : Inv img s (some i)) (hconf : Confidential img code s i) :
    s.dataUsable = true ∧ ∀ k < 4, Disclosable code s i (s.cpu.eax + BitVec.ofNat 32 k) := by
  have hm : UserMode s.afterInt i := UserMode.afterInt h.mode
  have hcr3 : s.cpu.cr3 = pgdOf i := UserMode.cr3 h.mode
  have ht := h.kernel.tables
  obtain ⟨line, s₁, -, hstep, -, hline, -⟩ := hconf s.mem s.mem sampleScratch sampleScratch
    (fun _ _ => rfl) (.refl _ _)
  obtain ⟨hdata, w, -, hw⟩ := readLinear_of_printed h ht hstep hline
  refine ⟨hdata, fun k hk => ?_⟩
  have hbyte := readByte_of_readLinear hw hk
  rw [readByte_syscallMem hm ht ht] at hbyte
  obtain ⟨t, hwalk, -⟩ := Option.map_eq_some_iff.mp hbyte
  refine ⟨t, by rw [hcr3]; exact hwalk, ?_⟩
  by_contra hsecret
  obtain ⟨hpub, hframe⟩ := not_or.mp hsecret
  -- the byte differs between the two memories, and so does what the handler leaves there
  have hagree := Mem.agree_update s.mem (s.mem t.pa + 1) hpub
  have ht₂ : TablesOk (Function.update s.mem t.pa (s.mem t.pa + 1)) :=
    ht.congr fun b hb => hagree b (.inr (.inl hb))
  obtain ⟨line, s₁, s₂, hstep₁, hstep₂, hline₁, hline₂⟩ := hconf s.mem _
    { sampleScratch with stack := fun _ => s.mem t.pa }
    { sampleScratch with stack := fun _ => s.mem t.pa + 1 } (fun _ _ => rfl) hagree
  obtain ⟨-, w₁, hw₁, hread₁⟩ := readLinear_of_printed h ht hstep₁ hline₁
  obtain ⟨-, w₂, hw₂, hread₂⟩ := readLinear_of_printed h ht₂ hstep₂ hline₂
  have hw : w₁ = w₂ := by
    have hline := hw₁.symm.trans hw₂
    injection hline with _ hargs
    injection hargs with harg
    injection harg
  have hbyte₁ := readByte_of_readLinear hread₁ hk
  have hbyte₂ := readByte_of_readLinear hread₂ hk
  have hwalk' : walk s.afterInt.mem (pgdOf i) (s.cpu.eax + BitVec.ofNat 32 k) = some t := hwalk
  rw [readByte_syscallMem hm ht ht, hwalk', Option.map_some,
    syscallMem_of_not_onEntryFrame hm rfl (fun _ => rfl) hframe] at hbyte₁
  rw [readByte_syscallMem hm ht ht₂, hwalk', Option.map_some,
    syscallMem_of_not_onEntryFrame hm (Function.update_self ..) (fun _ => rfl) hframe] at hbyte₂
  rw [hw, ← hbyte₂] at hbyte₁
  have hne : s.mem t.pa = s.mem t.pa + 1 := Option.some.inj hbyte₁
  bv_omega

theorem confidential_iff (h : Inv img s (some i)) (hcode : ∀ b, code b → ¬ OnKernelStack b) :
    Confidential img code s i ↔
      s.dataUsable = true ∧ ∀ k < 4, Disclosable code s i (s.cpu.eax + BitVec.ofNat 32 k) :=
  ⟨disclosable_of_confidential h, fun hd => confidential_of_disclosable h hcode hd.1 hd.2⟩

/-! ## Over runs -/

/-- Wherever a task runs, its system call is confidential exactly when the pointer in EAX
leads to four bytes that are mapped and no secret, DS being usable. -/
theorem confidential_iff_of_run {es : List Event} (hboot : Booted img s₀)
    (hes : ∀ e ∈ es, SparesPics e) (hrun : Lts.run (step img) s₀ es = some s)
    (hcpl : s.cpu.cpl = 3) (hcode : ∀ b, code b → ¬ OnKernelStack b) :
    ∃ i, s.currentTaskIdx = idxWord (some i) ∧ s.cpu.cr3 = pgdOf i ∧
      (Confidential img code s i ↔
        s.dataUsable = true ∧ ∀ k < 4, Disclosable code s i (s.cpu.eax + BitVec.ofNat 32 k)) := by
  have hinv := hboot.inv_run hes hrun
  obtain ⟨i, hcur, hm⟩ := hinv.mode.task_of_cpl hcpl
  rw [hcur] at hinv
  exact ⟨i, hm.currentTaskIdx, hm.cr3, confidential_iff hinv hcode⟩

/-- The kernel image, code and data. -/
def kernelImage (b : Word) : Prop := 0x300000 ≤ b.toNat ∧ b.toNat < 0x350000

theorem kernelImage_not_onKernelStack (b : Word) (h : kernelImage b) : ¬ OnKernelStack b := by
  rintro ⟨i, hi⟩
  unfold kernelImage at h
  obtain rfl | rfl : i = 0 ∨ i = 1 := by omega
  · simp only [StackArea, Within, kernelStackTop, interruptStackTask1, interruptStackSize] at hi
    bv_omega
  · simp only [StackArea, Within, kernelStackTop, interruptStackTask2, interruptStackSize] at hi
    bv_omega

theorem confidential_iff_sampleTask :
    ∃ i, sampleTask.currentTaskIdx = idxWord (some i) ∧ sampleTask.cpu.cr3 = pgdOf i ∧
      (Confidential sampleImage kernelImage sampleTask i ↔
        sampleTask.dataUsable = true ∧
          ∀ k < 4, Disclosable kernelImage sampleTask i
            (sampleTask.cpu.eax + BitVec.ofNat 32 k)) :=
  confidential_iff_of_run booted_sample (by simp [SparesPics]) run_sampleTask rfl
    kernelImage_not_onKernelStack

/-! ## A pointer into the kernel -/

/-- Task 0 loads EAX with an address in the kernel stack of task 1. -/
def spy : UserStep where
  eax := 0x390ff0
  ecx := 0
  edx := 0
  ebx := 0
  esp := 0
  ebp := 0
  esi := 0
  edi := 0
  eip := 0x404000
  eflags := 2
  cs := c3Sel
  ss := d3Sel
  ds := d3Sel
  es := d3Sel
  fs := d3Sel
  gs := d3Sel
  stores := []

def sampleSpy : Machine := { sampleTask with cpu := userCpu sampleTask.cpu spy }

theorem step_sampleSpy : step sampleImage sampleTask (.user spy) = some sampleSpy :=
  step_user inv_sampleTask rfl rfl (by simp [spy]) rfl

theorem inv_sampleSpy : Inv sampleImage sampleSpy (some 0) :=
  (effect_of_step inv_sampleTask step_sampleSpy).inv inv_sampleTask trivial

theorem not_disclosable_sampleSpy : ¬ Disclosable kernelImage sampleSpy 0 0x390ff0 := by
  have hcr3 : sampleSpy.cpu.cr3 = pgdOf 0 := rfl
  rintro ⟨t, hwalk, hpub⟩
  rw [hcr3, walk_kernel inv_sampleSpy.kernel.tables (by decide) (pgdOf_mem 0)] at hwalk
  obtain rfl := Option.some.inj hwalk
  rcases hpub with (⟨va, hva⟩ | htable | himage) | hframe
  · rw [userTranslate_pgdOf inv_sampleSpy.kernel.tables] at hva
    exact absurd (userMap_ge hva) (by decide)
  · exact absurd htable (by unfold Within; decide)
  · exact absurd himage.2 (by decide)
  · exact absurd hframe (by unfold OnEntryFrame Within; decide)

/-- The kernel prints what lies on the kernel stack of the other task. -/
theorem confidential_fails_sampleSpy :
    ¬ ∀ img code s₀ s es i, Booted img s₀ → (∀ e ∈ es, SparesPics e) →
        Lts.run (step img) s₀ es = some s → (∀ b, code b → ¬ OnKernelStack b) →
        s.cpu.cpl = 3 → s.dataUsable = true → s.currentTaskIdx = idxWord (some i) →
        Confidential img code s i := by
  intro hall
  have hrun : Lts.run (step sampleImage) sample [.irq 0 sampleScratch, .user spy]
      = some sampleSpy :=
    Lts.run_cons.mpr ⟨sampleTask, step_sampleTask,
      Lts.run_cons.mpr ⟨sampleSpy, step_sampleSpy, Lts.run_nil.mpr rfl⟩⟩
  have hconf := hall sampleImage kernelImage sample sampleSpy _ 0 booted_sample
    (by simp [SparesPics]) hrun kernelImage_not_onKernelStack rfl rfl rfl
  have hptr := (disclosable_of_confidential inv_sampleSpy hconf).2 0 (by decide)
  exact not_disclosable_sampleSpy hptr

end Machine

end SecOS
