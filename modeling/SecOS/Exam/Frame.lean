-- SUMMARY: Where the kernel's stacks are, and what memory an interrupt may change: never a page table, nor anything a task sees.
import SecOS.Exam.Clock
import SecOS.Exam.Syscall

/-!
# Memory of the kernel

Interrupts find three stacks: that of the boot, while `config` loops, and one for each
task. Whatever a handler does, it stays in a small area around the top of the stack it
was entered on, which is mapped in every page directory and holds no page table.
-/

namespace SecOS

open X86

/-! ## Stacks -/

/-- First byte above the kernel stack of task `i`. -/
def kernelStackTop : Fin 2 → Word
  | 0 => interruptStackTask1 + interruptStackSize
  | 1 => interruptStackTask2 + interruptStackSize

theorem interruptStack_examTasks (img : Image) (i : Fin 2) :
    (Machine.examTasks img i).interruptStack = kernelStackTop i := by
  match i with
  | 0 => rfl
  | 1 => rfl

theorem pgd_examTasks (img : Image) (i : Fin 2) : (Machine.examTasks img i).pgd = pgdOf i := by
  match i with
  | 0 => rfl
  | 1 => rfl

theorem pgdOf_mem (i : Fin 2) : pgdOf i ∈ [pgd, pgdTask1, pgdTask2] := by
  match i with
  | 0 => decide
  | 1 => decide

theorem pgd_mem : pgd ∈ [pgd, pgdTask1, pgdTask2] := List.mem_cons_self ..

/-- Where an interrupt may begin to push: in the boot stack, or at the top of the
kernel stack of a task. -/
def KernelTop (top : Word) : Prop :=
  (0x301000 ≤ top.toNat ∧ top.toNat ≤ 0x302010) ∨ ∃ i, top = kernelStackTop i

/-- A stack pointer of the kernel: from where an interrupt began to push down to the
frame of a handler. -/
def KernelSp (sp : Word) : Prop :=
  ∃ top, KernelTop top ∧ sp.toNat ≤ top.toNat ∧ top.toNat ≤ sp.toNat + 1104

theorem KernelTop.sp {top : Word} (h : KernelTop top) : KernelSp top :=
  ⟨top, h, le_rfl, Nat.le_add_right ..⟩

/-- The bytes around `top` that an interrupt may change. -/
def StackArea (top b : Word) : Prop := Within (top - 2048) 2064 b

instance (top b : Word) : Decidable (StackArea top b) := inferInstanceAs (Decidable (Within _ _ _))

section Stacks

variable {top b : Word}

theorem KernelTop.bounds (h : KernelTop top) : 0x301000 ≤ top.toNat ∧ top.toNat ≤ 0x391000 := by
  obtain h | ⟨i, rfl⟩ := h
  · omega
  · match i with
    | 0 => decide
    | 1 => decide

/-- The stacks lie in the kernel's part of the address space. -/
theorem KernelTop.stackArea_lt (h : KernelTop top) (hb : StackArea top b) :
    b.toNat < kernelEnd := by
  have := h.bounds
  simp only [StackArea, Within, kernelEnd] at *
  bv_omega

theorem KernelSp.bounds {sp : Word} (h : KernelSp sp) :
    0x300bb0 ≤ sp.toNat ∧ sp.toNat ≤ 0x391000 := by
  obtain ⟨top, htop, hhi, hlo⟩ := h
  have := htop.bounds
  omega

theorem KernelSp.not_tables {sp : Word} (h : KernelSp sp) (hb : StackArea sp b) :
    ¬ Within tablesBase tablesSize b := by
  obtain ⟨top, htop | ⟨i, rfl⟩, hhi, hlo⟩ := h
  · simp only [StackArea, Within, tablesBase, tablesSize] at *
    bv_omega
  · obtain rfl | rfl : i = 0 ∨ i = 1 := by omega
    · simp only [StackArea, Within, tablesBase, tablesSize, kernelStackTop, interruptStackTask1,
        interruptStackSize] at *
      bv_omega
    · simp only [StackArea, Within, tablesBase, tablesSize, kernelStackTop, interruptStackTask2,
        interruptStackSize] at *
      bv_omega

/-- What stays in the area of a stack leaves the page tables alone. -/
theorem KernelSp.tablesOk {sp : Word} {m m' : Mem} (h : KernelSp sp) (htables : TablesOk m)
    (hm : ∀ b, ¬ StackArea sp b → m' b = m b) : TablesOk m' :=
  htables.congr fun b hb => hm b fun harea => h.not_tables harea hb

theorem mapped_kernel {m : Mem} {dir va : Word} (h : TablesOk m)
    (hdir : dir ∈ [pgd, pgdTask1, pgdTask2]) (hva : va.toNat < kernelEnd) :
    Machine.mapped m dir va = true := by
  rw [Machine.mapped, walk_kernel h hva hdir]
  simp

/-- Every directory maps the stacks. -/
theorem KernelSp.stackMapped {s : Machine} {sp : Word} (h : KernelSp sp) (htables : TablesOk s.mem)
    (hdir : s.cpu.cr3 ∈ [pgd, pgdTask1, pgdTask2]) (hlo : sp.toNat ≤ s.cpu.esp.toNat + 1024)
    (hhi : s.cpu.esp.toNat ≤ sp.toNat) : s.stackMapped = true := by
  obtain ⟨top, htop, hsp, hsp'⟩ := h
  have := htop.bounds
  have hlow : (s.cpu.esp - 4032).toNat < kernelEnd := by
    simp only [kernelEnd]
    bv_omega
  have hhigh : (s.cpu.esp + 63).toNat < kernelEnd := by
    simp only [kernelEnd]
    bv_omega
  rw [Machine.stackMapped, mapped_kernel htables hdir hlow, mapped_kernel htables hdir hhigh]
  rfl

end Stacks

/-! ## Handlers stay in the area -/

section Area

variable {m : Mem} {top b : Word}

theorem pushWords_area {ws : List Word} (hlen : ws.length ≤ 20) (hb : ¬ StackArea top b) :
    m.pushWords top ws b = m b := by
  refine Mem.pushWords_not_within ?_ (by omega)
  simp only [StackArea, Within, Mem.below] at *
  bv_omega

theorem pushWords_area_below {ws : List Word} {d : Nat} (hlen : ws.length ≤ 20) (hd : d ≤ 1500)
    (hb : ¬ StackArea top b) : m.pushWords (top - BitVec.ofNat 32 d) ws b = m b := by
  refine Mem.pushWords_not_within ?_ (by omega)
  simp only [StackArea, Within, Mem.below] at *
  bv_omega

theorem blit_area {n d : Nat} {f : Nat → Byte} (hn : n ≤ 20) (hd : d ≤ 1024)
    (hb : ¬ StackArea top b) :
    m.blit (Mem.below top n - BitVec.ofNat 32 d) d f b = m b := by
  refine Mem.blit_not_within ?_
  simp only [StackArea, Within, Mem.below] at *
  bv_omega

theorem writeWords_area {n : Nat} {ws : List Word} (hn : n ≤ 20) (hlen : ws.length = intCtxWords)
    (hn11 : 11 ≤ n) (hb : ¬ StackArea top b) : m.writeWords (Mem.below top n) ws b = m b := by
  have h15 : ws.length = 15 := hlen
  refine Mem.writeWords_not_within ?_ (by omega)
  simp only [StackArea, Within, Mem.below] at *
  bv_omega

end Area

namespace Machine

variable {img : Image} {σ : Scratch} {s : Machine} {b : Word}

theorem length_trapFrame_le (c : Cpu) (err : Option Word) : (c.trapFrame err).length ≤ 6 := by
  have hcode : err.toList.length ≤ 1 := by cases err <;> simp
  rw [Cpu.trapFrame, List.length_append, List.length_append]
  split <;> simp only [List.length_cons, List.length_nil] <;> omega

theorem length_isrPushed : s.isrPushed.length = if s.cpu.cpl = 0 then 11 else 13 := by
  split
  · next h => rw [isrPushed_ring0 h]; rfl
  · next h => rw [isrPushed_ring3 h]; rfl

theorem length_isrPushed_bounds : 11 ≤ s.isrPushed.length ∧ s.isrPushed.length ≤ 13 := by
  rw [length_isrPushed]
  split <;> omega

theorem entered_area {a : Word} {err : Option Word} (hb : ¬ StackArea s.frameTop b) :
    (s.entered a err).mem b = s.mem b :=
  pushWords_area (by have := length_trapFrame_le s.cpu err; omega) hb

theorem length_pushed_le {v : Nat} {err : Option Word} : (s.pushed v err).length ≤ 20 := by
  have hframe := length_trapFrame_le s.cpu err
  have hstub : (stubWords v).length ≤ 2 := by
    rw [stubWords]
    split <;> simp
  simp only [pushed, List.length_append, Cpu.gprs, List.length_cons, List.length_nil]
  omega

/-- The default path changes nothing but the stack it runs on. -/
theorem returned_area {v : Nat} {err : Option Word} {out : List Line}
    (hb : ¬ StackArea s.frameTop b) : (s.returned img σ v err out).mem b = s.mem b := by
  simp only [returned]
  rw [blit_area length_pushed_le img.cDepth_le hb, pushWords_area length_pushed_le hb]

theorem isrCall_area {blk : Block} {a : Word} (hb : ¬ StackArea s.frameTop b) :
    ((s.entered a none).isrCall img blk).mem b = s.mem b := by
  have hlen := length_isrPushed_bounds (s := s)
  rw [isrCall_entered.1, pushWords_area (by omega) hb]

/-- So do the service routines, up to the activation of their handlers. -/
theorem enterC_isrCall_area {blk : Block} {a ret : Word} (hb : ¬ StackArea s.frameTop b) :
    (enterC img σ ((s.entered a none).isrCall img blk) ret).mem b = s.mem b := by
  have hlen := length_isrPushed_bounds (s := s)
  have hdepth := img.cDepth_le
  rw [enterC_mem_not_within, isrCall_area hb]
  rw [isrCall_entered.2, isrSp]
  simp only [StackArea, Within, Mem.below] at *
  bv_omega

theorem clockMem_area {cur : Option (Fin 2)} (hb : ¬ StackArea s.frameTop b) :
    clockMem img σ s cur b = s.mem b := by
  have hlen := length_isrPushed_bounds (s := s)
  have hdepth := img.cDepth_le
  have hframe := img.frameSize_le
  have hpush : s.mem.pushWords s.frameTop s.isrPushed b = s.mem b := pushWords_area (by omega) hb
  simp only [clockMem]
  split
  · rw [isrSp, blit_area (by omega) hdepth hb,
      writeWords_area (by omega) (IntCtx.length_words _) hlen.1 hb, hpush]
  · have hsp : Mem.below s.frameTop s.isrPushed.length - BitVec.ofNat 32 img.frameSize
        = s.frameTop - BitVec.ofNat 32 (4 * s.isrPushed.length + img.frameSize) := by
      simp only [Mem.below]
      bv_omega
    rw [isrSp, hsp, pushWords_area_below (by simp) (by omega) hb,
      blit_area (by omega) hdepth hb, hpush]

theorem syscallDone_area {v : Word} (hb : ¬ StackArea s.frameTop b) :
    (s.syscallDone img σ v).mem b = s.mem b := by
  have hlen := length_isrPushed_bounds (s := s)
  simp only [syscallDone]
  rw [isrSp, blit_area (by omega) img.cDepth_le hb, pushWords_area (by omega) hb]

/-! ## Stores of level 3 -/

/-- Nothing a task sees belongs to the kernel. -/
theorem userMap_ge {i : Fin 2} {va pa : Word} (h : userMap i va = some pa) :
    kernelEnd ≤ pa.toNat := by
  simp only [kernelEnd]
  unfold userMap at h
  -- one case for each task: its own block, the shared page, or nothing
  split at h
  all_goals split at h
  · cases h; omega
  · split at h
    · rw [← Option.some.inj h]; bv_omega
    · cases h
  · cases h; omega
  · split at h
    · rw [← Option.some.inj h]; bv_omega
    · cases h

theorem not_tables_of_kernelEnd_le {b : Word} (h : kernelEnd ≤ b.toNat) :
    ¬ Within tablesBase tablesSize b := by
  simp only [Within, tablesBase, tablesSize, kernelEnd] at *
  bv_omega

/-- Stores of a task leave the page tables alone and reach only what the task sees. -/
theorem userStores_spec {m m' : Mem} {i : Fin 2} {stores : List (Word × Byte)}
    (htables : TablesOk m) (h : userStores (pgdOf i) m stores = some m') :
    TablesOk m' ∧ ∀ b, m' b ≠ m b → ∃ va, userMap i va = some b := by
  induction stores generalizing m with
  | nil =>
    cases h
    exact ⟨htables, fun b hb => absurd rfl hb⟩
  | cons st rest ih =>
    obtain ⟨va, v⟩ := st
    simp only [userStores] at h
    split at h
    · next t ht =>
      split at h
      · next hrights =>
        simp only [Bool.and_eq_true] at hrights
        have hmap : userMap i va = some t.pa := by
          rw [← userTranslate_pgdOf htables i, userTranslate, ht]
          exact if_pos hrights.1
        have hother (b : Word) (hb : b ≠ t.pa) : m.blit t.pa 1 (fun _ => v) b = m b := by
          refine Mem.blit_not_within fun hin => hb ?_
          simp only [Within] at hin
          bv_omega
        have htables' : TablesOk (m.blit t.pa 1 fun _ => v) :=
          htables.congr fun b hb => hother b fun heq =>
            not_tables_of_kernelEnd_le (userMap_ge hmap) (heq ▸ hb)
        obtain ⟨hok, hseen⟩ := ih htables' h
        refine ⟨hok, fun b hb => ?_⟩
        by_cases heq : b = t.pa
        · exact ⟨va, heq ▸ hmap⟩
        · exact hseen b (by rwa [hother b heq])
      · cases h
    · cases h

end Machine

end SecOS
