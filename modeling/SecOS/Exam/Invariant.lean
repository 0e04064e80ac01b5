-- SUMMARY: What holds in every state of a run of the exam kernel, and that each of its handlers keeps it.
import SecOS.Exam.Frame

/-!
# Invariant

`Kernel` is what the configuration set up once and for all, `Mode` what depends on who
runs: the loop of `config` until the first clock interrupt, a task from then on. Every
handler is entered from such a state and leaves such a state.
-/

namespace SecOS

open X86

/-- The task state segment with `esp0` as the stack for interrupts. -/
def kernelTss (esp0 : Word) : Tss := { Tss.zero with s0 := ⟨esp0, d0Sel, 0⟩ }

namespace Machine

/-! ## The invariant -/

structure Kernel (img : Image) (s : Machine) : Prop where
  gdt : s.gdt = examGdt img.tss
  idt : s.idt = examIdt img
  tables : TablesOk s.mem
  tss : s.tss = kernelTss s.tss.s0.esp
  tasks : ∀ i, s.tasks i = { examTasks img i with
    context := (s.tasks i).context, contextSaved := (s.tasks i).contextSaved }
  saved : ∀ i, (s.tasks i).contextSaved = 1 → UserRegs (ctxRegs (s.tasks i).context)

/-- The loop at the end of `config`: no task has run. -/
structure IdleMode (img : Image) (s : Machine) : Prop where
  currentTaskIdx : s.currentTaskIdx = idxWord none
  cs : s.cpu.cs = c0Sel
  eip : s.cpu.eip = img.addr ⟨.idle, 0⟩
  flags : s.cpu.eflags &&& ~~~Eflags.status = Eflags.intr ||| 2
  esp_lo : 0x301000 ≤ s.cpu.esp.toNat
  esp_hi : s.cpu.esp.toNat ≤ 0x302010
  shadow : s.cpu.shadow = false
  cr3 : s.cpu.cr3 = pgdOf 0
  unsaved : ∀ i, (s.tasks i).contextSaved = 0

/-- Task `i` at level 3, in its address space and with its kernel stack. -/
structure UserMode (s : Machine) (i : Fin 2) : Prop where
  currentTaskIdx : s.currentTaskIdx = idxWord (some i)
  regs : UserRegs (regsOf s.cpu)
  shadow : s.cpu.shadow = false
  cr3 : s.cpu.cr3 = pgdOf i
  esp0 : s.tss.s0.esp = kernelStackTop i

def Mode (img : Image) (s : Machine) : Option (Fin 2) → Prop
  | none => IdleMode img s
  | some i => UserMode s i

/-- The state between two events, when `cur` is the task that runs. -/
structure Inv (img : Image) (s : Machine) (cur : Option (Fin 2)) : Prop where
  kernel : Kernel img s
  pics : Serviceable s.pics
  mode : Mode img s cur

variable {img : Image} {σ : Scratch} {s s' : Machine} {cur : Option (Fin 2)} {i : Fin 2}

/-! ## What the modes have in common -/

theorem UserMode.cpl (h : UserMode s i) : s.cpu.cpl = 3 := by
  have hcs : s.cpu.cs = c3Sel := h.regs.cs
  rw [Cpu.cpl, hcs]
  rfl

theorem IdleMode.cpl (h : IdleMode img s) : s.cpu.cpl = 0 := by
  rw [Cpu.cpl, h.cs]
  rfl

/-- Level 3 means that a task runs. -/
theorem Mode.task_of_cpl (h : Mode img s cur) (hcpl : s.cpu.cpl = 3) :
    ∃ i, cur = some i ∧ UserMode s i := by
  cases cur with
  | none =>
    rw [IdleMode.cpl h] at hcpl
    cases hcpl
  | some i => exact ⟨i, rfl, h⟩

theorem Mode.currentTaskIdx (h : Mode img s cur) : s.currentTaskIdx = idxWord cur := by
  cases cur with
  | none => exact IdleMode.currentTaskIdx h
  | some i => exact UserMode.currentTaskIdx h

theorem Mode.shadow (h : Mode img s cur) : s.cpu.shadow = false := by
  cases cur with
  | none => exact IdleMode.shadow h
  | some i => exact UserMode.shadow h

theorem Mode.cr3_mem (h : Mode img s cur) : s.cpu.cr3 ∈ [pgd, pgdTask1, pgdTask2] := by
  cases cur with
  | none => rw [IdleMode.cr3 h]; exact pgdOf_mem 0
  | some i => rw [UserMode.cr3 h]; exact pgdOf_mem i

/-- Interrupts are on, and I/O is not for level 3. -/
theorem Mode.flags (h : Mode img s cur) : s.cpu.eflags &&& userFixed = Eflags.intr := by
  cases cur with
  | none => exact (Eflags.and_of_and (IdleMode.flags h) (by decide)).trans (by decide)
  | some i => exact (UserMode.regs h).flags

theorem Mode.intrFlag (h : Mode img s cur) : s.cpu.intrFlag = true :=
  Cpu.intrFlag_eq_true ((Eflags.and_of_and h.flags (by decide)).trans (by decide))

theorem Mode.interruptible (h : Mode img s cur) : s.cpu.interruptible = true :=
  Cpu.interruptible_eq h.intrFlag h.shadow

theorem Mode.kernelTop (h : Mode img s cur) : KernelTop s.frameTop := by
  cases cur with
  | none =>
    rw [frameTop, if_pos (IdleMode.cpl h)]
    exact .inl ⟨IdleMode.esp_lo h, IdleMode.esp_hi h⟩
  | some i =>
    rw [frameTop, if_neg (by rw [UserMode.cpl h]; decide), UserMode.esp0 h]
    exact .inr ⟨i, rfl⟩

theorem Mode.running (h : Mode img s cur) (hk : Kernel img s) : Running s.gdt s.cpu := by
  have hvm : s.cpu.eflags &&& Eflags.vm = 0 :=
    (Eflags.and_of_and h.flags (by decide)).trans (by decide)
  cases cur with
  | none =>
    have hcpl := IdleMode.cpl h
    refine ⟨.inl hcpl, ?_, fun h3 => ?_, hvm⟩
    · rw [hcpl, IdleMode.cs h, hk.gdt]
      exact codeOk_c0Sel img.tss
    · rw [hcpl] at h3
      cases h3
  | some i =>
    have hcpl := UserMode.cpl h
    have hcs : s.cpu.cs = c3Sel := (UserMode.regs h).cs
    have hss : s.cpu.ss = d3Sel := (UserMode.regs h).ss
    refine ⟨.inr hcpl, ?_, fun _ => ?_, hvm⟩
    · rw [hcpl, hcs, hk.gdt]
      exact codeOk_c3Sel img.tss
    · rw [hss, hk.gdt]
      exact stackOk_d3Sel img.tss

theorem frameTop_of_userMode (hm : UserMode s i) : s.frameTop = kernelStackTop i := by
  rw [frameTop, if_neg (by rw [hm.cpl]; decide), hm.esp0]

theorem length_isrPushed_user (hm : UserMode s i) : s.isrPushed.length = 13 := by
  rw [length_isrPushed, if_neg (by rw [hm.cpl]; decide)]

theorem isrSp_of_userMode (hm : UserMode s i) : s.isrSp = Mem.below (kernelStackTop i) 13 := by
  rw [isrSp, frameTop_of_userMode hm, length_isrPushed_user hm]

theorem Kernel.ss0 (hk : Kernel img s) : s.tss.s0.ss = d0Sel := by
  rw [hk.tss]
  rfl

theorem Kernel.pgd (hk : Kernel img s) (i : Fin 2) : (s.tasks i).pgd = pgdOf i := by
  rw [hk.tasks i]
  exact pgd_examTasks img i

theorem Kernel.interruptStack (hk : Kernel img s) (i : Fin 2) :
    (s.tasks i).interruptStack = kernelStackTop i := by
  rw [hk.tasks i]
  exact interruptStack_examTasks img i

/-! ## Entering a handler -/

/-- On a stack of the kernel no interrupt fails to be delivered, and each finds the
handler of its gate. -/
theorem interrupt_eq_of_sp (hk : Kernel img s) (hsp : KernelSp s.frameTop)
    (hdir : s.cpu.cr3 ∈ [SecOS.pgd, pgdTask1, pgdTask2]) (v : Fin 256) (err : Option Word) :
    s.interrupt v err = some (s.entered (img.addr ⟨gateBlock v, 0⟩) err) := by
  obtain ⟨g, hg, hgate⟩ := gate_examIdt img v
  have hidt : s.idt[v.val]? = some g := by rw [hk.idt, hg]
  have hsel : g.gateSelector &&& ~~~3 = c0Sel := by rw [hgate.selector]; decide
  have hcode : s.gdt.codeOk 0 c0Sel = true := by rw [hk.gdt]; exact codeOk_c0Sel img.tss
  have hstack : s.gdt.stackOk 0 s.tss.s0.ss = true := by
    rw [hk.gdt, hk.ss0]
    exact stackOk_d0Sel img.tss
  have hbounds := hsp.bounds
  have hlen := length_trapFrame_le s.cpu err
  have hmapped : (s.entered (img.addr ⟨gateBlock v, 0⟩) err).stackMapped = true := by
    refine hsp.stackMapped (hsp.tablesOk hk.tables fun b hb => entered_area hb) hdir ?_ ?_
    · simp only [entered, Mem.below]
      bv_omega
    · simp only [entered, Mem.below]
      bv_omega
  have hentered : ({ s with
      cpu := (s.cpu.deliver s.mem s.tss.s0.esp s.tss.s0.ss g err).1
      mem := (s.cpu.deliver s.mem s.tss.s0.esp s.tss.s0.ss g err).2 } : Machine)
        = s.entered (img.addr ⟨gateBlock v, 0⟩) err := by
    simp only [Cpu.deliver, entered, frameTop, hsel, hgate.offset]
  simp only [interrupt, hidt, hgate.present, hgate.type, hsel, hcode, hstack, hentered, hmapped,
    Option.bind_eq_bind, Option.bind_some, beq_self_eq_true, Bool.and_self, Bool.not_true,
    Bool.false_eq_true, and_false, if_false, if_true]

/-- In a state of a run, in particular. -/
theorem interrupt_eq (hk : Kernel img s) (hm : Mode img s cur) (v : Fin 256) (err : Option Word) :
    s.interrupt v err = some (s.entered (img.addr ⟨gateBlock v, 0⟩) err) :=
  interrupt_eq_of_sp hk hm.kernelTop.sp hm.cr3_mem v err

/-! ## The clock interrupt -/

/-- A service routine runs without IF, IOPL, VM and NT. -/
theorem Mode.isrFlags (hm : Mode img s cur) :
    isrFlags s.cpu.eflags &&& (userFixed ||| Eflags.nt) = 0 := by
  have hiopl : s.cpu.eflags &&& Eflags.iopl = 0 :=
    (Eflags.and_of_and hm.flags (by decide)).trans (by decide)
  have hclear : Machine.isrFlags s.cpu.eflags &&& (Eflags.intr ||| Eflags.vm ||| Eflags.nt) = 0 :=
    isrFlags_and (by decide)
  have hisr : Machine.isrFlags s.cpu.eflags &&& Eflags.iopl = 0 := by
    rw [isrFlags_eq, BitVec.and_assoc, BitVec.and_comm _ Eflags.iopl, ← BitVec.and_assoc, hiopl]
    exact BitVec.zero_and
  have hsplit : userFixed ||| Eflags.nt
      = (Eflags.intr ||| Eflags.vm ||| Eflags.nt) ||| Eflags.iopl := by decide
  rw [hsplit, BitVec.and_or_distrib_left, hclear, hisr]
  rfl

/-- The registers of the next task are those of a program at level 3. -/
theorem userRegs_nextRegs (hk : Kernel img s) (hm : Mode img s cur) :
    UserRegs (nextRegs σ s cur) := by
  simp only [nextRegs]
  split
  · next hsaved => exact hk.saved _ hsaved
  · refine ⟨rfl, rfl, ?_⟩
    have hfixed : isrFlags s.cpu.eflags &&& userFixed = 0 :=
      (Eflags.and_of_and hm.isrFlags (by decide)).trans (by decide)
    have hblend : Eflags.blend (isrFlags s.cpu.eflags) σ.flags Eflags.status &&& userFixed
        = isrFlags s.cpu.eflags &&& userFixed := Eflags.blend_and _ _ (by decide)
    simp only [launchRegs]
    rw [BitVec.and_comm, BitVec.and_or_distrib_left, BitVec.and_comm userFixed, hblend, hfixed]
    decide

/-- The next task's directory maps the stack that the clock handler runs on. -/
theorem stackMapped_switched_of_sp (σ : Scratch) (hk : Kernel img s) (hsp : KernelSp s.frameTop)
    (cur : Option (Fin 2)) :
    ((enterC img σ (s.clockCall img) (img.addr ⟨.clockInterruptIsr, 7⟩)).switched cur
      s.isrSp).stackMapped = true := by
  have hbounds := hsp.bounds
  have hlen := length_isrPushed_bounds (s := s)
  have hdir : (s.tasks (nextOf cur)).pgd ∈ [SecOS.pgd, pgdTask1, pgdTask2] := by
    rw [hk.pgd]
    exact pgdOf_mem (nextOf cur)
  have hesp := (clockCall_eq img s).2
  rw [isrSp, Mem.below] at hesp
  refine hsp.stackMapped (hsp.tablesOk hk.tables fun b hb => enterC_isrCall_area hb) hdir ?_ ?_
  · change s.frameTop.toNat ≤ (s.clockCall img).cpu.esp.toNat + 1024
    rw [hesp]
    bv_omega
  · change (s.clockCall img).cpu.esp.toNat ≤ s.frameTop.toNat
    rw [hesp]
    bv_omega

theorem stackMapped_switched (σ : Scratch) (hk : Kernel img s) (hm : Mode img s cur) :
    ((enterC img σ (s.clockCall img) (img.addr ⟨.clockInterruptIsr, 7⟩)).switched cur
      s.isrSp).stackMapped = true :=
  stackMapped_switched_of_sp σ hk hm.kernelTop.sp cur

/-- The whole clock interrupt, from any state of a run. -/
theorem handle_clock_of_mode (hk : Kernel img s) (hm : Mode img s cur) :
    (s.entered (img.addr ⟨.clockInterruptIsr, 0⟩) none).handle img σ handlerFuel
      = if s.clockUsable = true then some (s.clockDone img σ cur) else none :=
  handle_clock hk.gdt hm.currentTaskIdx (hk.saved _) (stackMapped_switched σ hk hm)

theorem savedTasks_apply (tasks : Fin 2 → Task) (cur : Option (Fin 2)) (ctx : IntCtx) (i : Fin 2) :
    savedTasks tasks cur ctx i
      = if cur = some i then { tasks i with context := ctx, contextSaved := 1 } else tasks i := by
  cases cur with
  | none => simp [savedTasks]
  | some j =>
    by_cases h : i = j
    · simp [savedTasks, h]
    · simp [savedTasks, h, Ne.symm h]

theorem Kernel.clockDone (hk : Kernel img s) (hm : Mode img s cur) :
    Kernel img (s.clockDone img σ cur) where
  gdt := hk.gdt
  idt := hk.idt
  tables := hm.kernelTop.sp.tablesOk hk.tables fun b hb => clockMem_area hb
  tss := by
    simp only [Machine.clockDone]
    rw [hk.tss]
    rfl
  tasks i := by
    simp only [Machine.clockDone, savedTasks_apply]
    split
    · exact congrArg (fun t : Task => { t with context := s.isrSaved, contextSaved := 1 })
        (hk.tasks i)
    · exact hk.tasks i
  saved i hsaved := by
    simp only [Machine.clockDone, savedTasks_apply] at hsaved ⊢
    split at hsaved
    · next hcur =>
      rw [if_pos hcur]
      subst hcur
      have hcpl : s.cpu.cpl ≠ 0 := by rw [UserMode.cpl hm]; decide
      rw [isrSaved, load_isrPushed hcpl, ctxRegs_isrCtx]
      exact UserMode.regs hm
    · next hcur =>
      rw [if_neg hcur]
      exact hk.saved i hsaved

/-- A clock interrupt ends in the next task. -/
theorem UserMode.clockDone (hk : Kernel img s) (hm : Mode img s cur) :
    UserMode (s.clockDone img σ cur) (nextOf cur) where
  currentTaskIdx := rfl
  regs := userRegs_nextRegs hk hm
  shadow := rfl
  cr3 := hk.pgd (nextOf cur)
  esp0 := hk.interruptStack (nextOf cur)

/-! ## Handlers that come back -/

/-- A handler that gives the interrupted registers back and writes to the stack only. -/
theorem Kernel.frame (hk : Kernel img s) {sp : Word} (hsp : KernelSp sp) {cpu : Cpu} {mem : Mem}
    {pics : Pics} {console : List Line} {ports : List PortWrite}
    (hmem : ∀ b, ¬ StackArea sp b → mem b = s.mem b) :
    Kernel img { s with cpu, mem, pics, console, ports } where
  gdt := hk.gdt
  idt := hk.idt
  tables := hsp.tablesOk hk.tables hmem
  tss := hk.tss
  tasks := hk.tasks
  saved := hk.saved

theorem Kernel.withCpu (hk : Kernel img s) {cpu : Cpu} {pics : Pics} {ports : List PortWrite} :
    Kernel img { s with cpu, pics, ports } where
  gdt := hk.gdt
  idt := hk.idt
  tables := hk.tables
  tss := hk.tss
  tasks := hk.tasks
  saved := hk.saved

/-- Other registers for the task that runs, and the memory and the ports it changed. -/
theorem UserMode.withCpu (hm : UserMode s i) {cpu : Cpu} {mem : Mem} {pics : Pics}
    {console : List Line} {ports : List PortWrite} (hregs : UserRegs (regsOf cpu))
    (hshadow : cpu.shadow = false) (hcr3 : cpu.cr3 = s.cpu.cr3) :
    UserMode { s with cpu, mem, pics, console, ports } i where
  currentTaskIdx := hm.currentTaskIdx
  regs := hregs
  shadow := hshadow
  cr3 := hcr3.trans hm.cr3
  esp0 := hm.esp0

/-- Another processor state with the same registers of a program. -/
theorem Mode.frame (hm : Mode img s cur) {cpu : Cpu} {mem : Mem} {pics : Pics}
    {console : List Line} {ports : List PortWrite} (hregs : regsOf cpu = regsOf s.cpu)
    (hcr3 : cpu.cr3 = s.cpu.cr3) (hshadow : cpu.shadow = false) :
    Mode img { s with cpu, mem, pics, console, ports } cur := by
  cases cur with
  | none =>
    have h : IdleMode img s := hm
    exact
      { currentTaskIdx := h.currentTaskIdx
        cs := (congrArg Regs.cs hregs).trans h.cs
        eip := (congrArg Regs.eip hregs).trans h.eip
        flags := (congrArg (fun r => Regs.eflags r &&& ~~~Eflags.status) hregs).trans h.flags
        esp_lo := (congrArg (fun r => (Regs.esp r).toNat) hregs).ge.trans' h.esp_lo
        esp_hi := (congrArg (fun r => (Regs.esp r).toNat) hregs).le.trans h.esp_hi
        shadow := hshadow
        cr3 := hcr3.trans h.cr3
        unsaved := h.unsaved }
  | some i =>
    have h : UserMode s i := hm
    exact
      { currentTaskIdx := h.currentTaskIdx
        regs := hregs ▸ h.regs
        shadow := hshadow
        cr3 := hcr3.trans h.cr3
        esp0 := h.esp0 }

theorem regsOf_restored (gdt : Gdt) (c : Cpu) : regsOf (restored gdt c) = regsOf c := by
  rw [restored]
  split <;> rfl

theorem restored_cr3 (gdt : Gdt) (c : Cpu) : (restored gdt c).cr3 = c.cr3 := by
  rw [restored]
  split <;> rfl

theorem restored_shadow (gdt : Gdt) (c : Cpu) : (restored gdt c).shadow = false := by
  rw [restored]
  split <;> rfl

end Machine

end SecOS
