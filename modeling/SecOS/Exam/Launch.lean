-- SUMMARY: The statements that start a task for the first time, one instruction at a time, with the requests that may come between two of them.
import SecOS.Exam.Boundary

/-!
# The first launch

These are the only instructions of a handler that run with interrupts on. `Launching`
says what they keep while they build the frame of their `iret`: other devices may come
between any two of them, and leave the frame alone. The timer may not: its handler
takes the launch for the task that is being started.
-/

namespace SecOS

open X86

namespace Machine

variable {img : Image} {σ : Scratch} {s t : Machine} {cur : Option (Fin 2)} {i : Fin 2}
  {base : Word} {j : Nat}

/-! ## Between two instructions of the launch -/

/-- The words that have been pushed before instruction `j`. -/
def launchPushed (j : Nat) : Nat := min (j - 1) 5

/-- What the `iret` to level 3 asks of word `k` of its frame, in the order they are
pushed. -/
def LaunchWord (w : Word) : Nat → Prop
  | 0 => w.setWidth 16 = d3Sel
  | 2 => w &&& userFixed = Eflags.intr
  | 3 => w.setWidth 16 = c3Sel
  | _ => True

/-- Instruction `j` of the launch of task `i` comes next, and the frame grows down from
`base`. -/
structure Launching (img : Image) (base : Word) (i : Fin 2) (j : Nat) (s : Machine) : Prop where
  kernel : Kernel img s
  pics : Serviceable s.pics
  currentTaskIdx : s.currentTaskIdx = idxWord (some i)
  eip : s.cpu.eip = img.addr ⟨.firstLaunch, j⟩
  cs : s.cpu.cs = c0Sel
  data : s.cpu.ds = d3Sel ∧ s.cpu.es = d3Sel
  cr3 : s.cpu.cr3 = pgdOf i
  esp0 : s.tss.s0.esp = kernelStackTop i
  flags : s.cpu.eflags &&& (userFixed ||| Eflags.nt) = if j = 0 then 0 else Eflags.intr
  value : 7 ≤ j → s.cpu.eax = 32
  port : 8 ≤ j → s.cpu.edx = 32
  stack : ∃ top, KernelTop top ∧ base.toNat ≤ top.toNat ∧ top.toNat ≤ base.toNat + 1080
  esp : s.cpu.esp = Mem.below base (launchPushed j)
  frame : ∀ k < launchPushed j, LaunchWord (s.mem.read32 (Mem.below base (k + 1))) k

namespace Launching

theorem cpl (h : Launching img base i j s) : s.cpu.cpl = 0 := by
  rw [Cpu.cpl, h.cs]
  rfl

theorem pcAt (h : Launching img base i j s) : s.At img ⟨.firstLaunch, j⟩ := ⟨h.eip, h.cpl⟩

theorem frameTop (h : Launching img base i j s) :
    s.frameTop = Mem.below base (launchPushed j) := by
  rw [Machine.frameTop, if_pos h.cpl, h.esp]

theorem base_bounds (h : Launching img base i j s) :
    0x300bc8 ≤ base.toNat ∧ base.toNat ≤ 0x391000 := by
  obtain ⟨top, htop, hhi, hlo⟩ := h.stack
  have := htop.bounds
  omega

theorem kernelSp (h : Launching img base i j s) : KernelSp s.frameTop := by
  obtain ⟨top, htop, hhi, hlo⟩ := h.stack
  have hbase := h.base_bounds
  have hpushed : launchPushed j ≤ 5 := Nat.min_le_right ..
  have hsp : s.frameTop.toNat = base.toNat - 4 * launchPushed j := by
    rw [h.frameTop]
    simp only [Mem.below]
    bv_omega
  exact ⟨top, htop, by omega, by omega⟩

theorem cr3_mem (h : Launching img base i j s) : s.cpu.cr3 ∈ [pgd, pgdTask1, pgdTask2] := by
  rw [h.cr3]
  exact pgdOf_mem i

theorem running (h : Launching img base i j s) : Running s.gdt s.cpu where
  level := .inl h.cpl
  code := by
    rw [h.cpl, h.cs, h.kernel.gdt]
    exact codeOk_c0Sel img.tss
  stack h3 := by
    rw [h.cpl] at h3
    cases h3
  vm := by
    refine (Eflags.and_of_and h.flags (by decide)).trans ?_
    split <;> decide

theorem savesTask (h : Launching img base i j s) (hj : j ≤ 10) : SavesTask img s := by
  obtain ⟨o, hi, hne⟩ : ∃ o, Pc.instr? ⟨.firstLaunch, j⟩ = some o ∧
      o ≠ .call .clockInterruptHandler := by
    interval_cases j <;> exact ⟨_, rfl, by simp⟩
  exact savesTask_of_at h.pcAt hi hne

/-! ## One instruction -/

/-- An instruction that pushes nothing. -/
theorem keep (h : Launching img base i j s) (hpushed : launchPushed (j + 1) = launchPushed j)
    {eax edx eflags : Word} {shadow : Bool} {pics : Pics} {ports : List PortWrite}
    (hpics : Serviceable pics)
    (hflags : eflags &&& (userFixed ||| Eflags.nt) = Eflags.intr)
    (heax : 7 ≤ j + 1 → eax = 32) (hedx : 8 ≤ j + 1 → edx = 32) :
    Launching img base i (j + 1) { s with
      cpu := { s.cpu with eax, edx, eflags, shadow, eip := img.addr ⟨.firstLaunch, j + 1⟩ }
      pics, ports } where
  kernel := h.kernel.withCpu
  pics := hpics
  currentTaskIdx := h.currentTaskIdx
  eip := rfl
  cs := h.cs
  data := h.data
  cr3 := h.cr3
  esp0 := h.esp0
  flags := hflags
  value := heax
  port := hedx
  stack := h.stack
  esp := hpushed ▸ h.esp
  frame := hpushed ▸ h.frame

/-- An instruction that pushes the next word of the frame. -/
theorem push (h : Launching img base i j s) (hj : j ≠ 0) (hj' : j < 6) {w : Word}
    (hw : LaunchWord w (launchPushed j)) :
    Launching img base i (j + 1) { s with
      cpu := { s.cpu with
        esp := s.cpu.esp - 4, shadow := false, eip := img.addr ⟨.firstLaunch, j + 1⟩ }
      mem := s.mem.write32 (s.cpu.esp - 4) w } := by
  have hpushed : launchPushed (j + 1) = launchPushed j + 1 := by
    simp only [launchPushed]
    omega
  have hbase := h.base_bounds
  have hle : launchPushed j ≤ 5 := Nat.min_le_right ..
  have hesp : s.cpu.esp - 4 = Mem.below base (launchPushed j + 1) := by
    rw [h.esp, ← Mem.below_one, Mem.below_below]
  exact
    { kernel := h.kernel.frame h.kernelSp fun b hb => by
        refine Mem.write32_not_within ?_
        rw [h.frameTop] at hb
        rw [hesp]
        simp only [StackArea, Within, Mem.below] at *
        bv_omega
      pics := h.pics
      currentTaskIdx := h.currentTaskIdx
      eip := rfl
      cs := h.cs
      data := h.data
      cr3 := h.cr3
      esp0 := h.esp0
      flags := by
        rw [if_neg (Nat.succ_ne_zero j)]
        exact h.flags.trans (if_neg hj)
      value := fun h7 => by omega
      port := fun h8 => by omega
      stack := h.stack
      esp := by rw [hpushed]; exact hesp
      frame := fun k hk => by
        rw [hpushed, Nat.lt_succ_iff_lt_or_eq] at hk
        rw [hesp]
        rcases hk with hlt | rfl
        · have hapart : 4 ≤ (Mem.below base (launchPushed j + 1) - Mem.below base (k + 1)).toNat ∧
              4 ≤ (Mem.below base (k + 1) - Mem.below base (launchPushed j + 1)).toNat := by
            simp only [Mem.below]
            bv_omega
          rw [Mem.read32_write32_of_disjoint hapart.1 hapart.2]
          exact h.frame k hlt
        · rw [Mem.read32_write32]
          exact hw }

/-- The kernel's next instruction, before the `iret`. -/
theorem exec (h : Launching img base i j s) (hj : j < 10)
    (hexec : s.exec img σ = some t) : Launching img base i (j + 1) t := by
  have hmask : Eflags.intr &&& (userFixed ||| Eflags.nt) = Eflags.intr := by decide
  have hsti : (s.cpu.eflags ||| Eflags.intr) &&& (userFixed ||| Eflags.nt) = Eflags.intr := by
    rw [BitVec.and_comm, BitVec.and_or_distrib_left, BitVec.and_comm _ s.cpu.eflags, h.flags,
      BitVec.and_comm, hmask]
    split
    · exact BitVec.zero_or
    · exact BitVec.or_self
  have hflags (hne : j ≠ 0) : s.cpu.eflags &&& (userFixed ||| Eflags.nt) = Eflags.intr :=
    h.flags.trans (if_neg hne)
  interval_cases j
  -- sti
  · obtain rfl := Option.some.inj ((exec_at h.pcAt rfl).symm.trans hexec)
    exact h.keep rfl h.pics hsti (by simp) (by simp)
  -- push d3_sel, stack, flags, c3_sel, function
  · obtain rfl := Option.some.inj ((exec_at h.pcAt rfl).symm.trans hexec)
    have hss : (d3Sel.setWidth 32 : Word).setWidth 16 = d3Sel := by decide
    exact h.push (by decide) (by decide) hss
  · obtain rfl := Option.some.inj ((exec_at h.pcAt rfl).symm.trans hexec)
    exact h.push (by decide) (by decide) trivial
  · obtain rfl := Option.some.inj ((exec_at h.pcAt rfl).symm.trans hexec)
    refine h.push (by decide) (by decide) ?_
    exact (Eflags.and_of_and (hflags (by decide)) (by decide)).trans (by decide)
  · obtain rfl := Option.some.inj ((exec_at h.pcAt rfl).symm.trans hexec)
    have hcs : (c3Sel.setWidth 32 : Word).setWidth 16 = c3Sel := by decide
    exact h.push (by decide) (by decide) hcs
  · obtain rfl := Option.some.inj ((exec_at h.pcAt rfl).symm.trans hexec)
    exact h.push (by decide) (by decide) trivial
  -- the operands of outb
  · obtain rfl := Option.some.inj ((exec_at h.pcAt rfl).symm.trans hexec)
    exact h.keep rfl h.pics (hflags (by decide))
      (fun _ => rfl) (by simp)
  · obtain rfl := Option.some.inj ((exec_at h.pcAt rfl).symm.trans hexec)
    exact h.keep rfl h.pics (hflags (by decide))
      (fun _ => h.value (by decide)) (fun _ => rfl)
  -- outb: the end of interrupt
  · obtain rfl := Option.some.inj ((exec_at h.pcAt rfl).symm.trans hexec)
    have hvalue : field s.cpu.eax 0 8 = picEoi := by rw [h.value (by decide)]; decide
    have hport : field s.cpu.edx 0 16 = pic1 := by rw [h.port (by decide)]; decide
    refine h.keep rfl ?_ (hflags (by decide)) (fun _ => h.value (by decide))
      (fun _ => h.port (by decide))
    change Serviceable (s.pics.out (field s.cpu.edx 0 16) (field s.cpu.eax 0 8))
    rw [hvalue, hport]
    exact h.pics.eoi
  -- sti
  · obtain rfl := Option.some.inj ((exec_at h.pcAt rfl).symm.trans hexec)
    exact h.keep rfl h.pics hsti
      (fun _ => h.value (by decide)) (fun _ => h.port (by decide))

/-- The `iret` at the end enters the task. -/
theorem iret (h : Launching img base i 10 s) (hexec : s.exec img σ = some t) :
    Inv img t (some i) := by
  obtain ⟨hss, hflags, hcs⟩ : LaunchWord (s.mem.read32 (Mem.below base 1)) 0 ∧
      LaunchWord (s.mem.read32 (Mem.below base 3)) 2 ∧
      LaunchWord (s.mem.read32 (Mem.below base 4)) 3 :=
    ⟨h.frame 0 (by decide), h.frame 2 (by decide), h.frame 3 (by decide)⟩
  have hread : s.mem.readWords s.cpu.esp 5
      = [s.mem.read32 (Mem.below base 5), s.mem.read32 (Mem.below base 4),
          s.mem.read32 (Mem.below base 3), s.mem.read32 (Mem.below base 2),
          s.mem.read32 (Mem.below base 1)] := by
    have hesp : s.cpu.esp = Mem.below base 5 := h.esp
    simp only [hesp, Mem.readWords_succ, Mem.readWords_zero, Mem.below_add_four]
  have hnt : s.cpu.eflags &&& Eflags.nt = 0 :=
    (Eflags.and_of_and h.flags (by decide)).trans (by decide)
  have hvm : s.mem.read32 (Mem.below base 3) &&& Eflags.vm = 0 :=
    (Eflags.and_of_and hflags (by decide)).trans (by decide)
  have hiret := Cpu.iret_outer (g := s.gdt) hread hnt hvm (by rw [hcs]; rfl)
    (by rw [hcs, h.kernel.gdt]; exact codeOk_c3Sel img.tss)
    (by rw [hss, h.kernel.gdt]; exact stackOk_d3Sel img.tss)
  have hstep : s.execInstr img σ ⟨.firstLaunch, 10⟩ .iret = some t :=
    (exec_at h.pcAt rfl).symm.trans hexec
  simp only [execInstr, hiret, Option.bind_eq_bind, Option.bind_some] at hstep
  obtain rfl := Option.some.inj hstep
  exact
    { kernel := h.kernel.withCpu
      pics := h.pics
      mode :=
        { currentTaskIdx := h.currentTaskIdx
          regs := ⟨hcs, hss, hflags⟩
          shadow := rfl
          cr3 := h.cr3
          esp0 := h.esp0 } }

/-! ## Other devices -/

/-- A handler that came between two instructions has left the frame alone. -/
theorem returned (h : Launching img base i j s) {q : Pics} {v : Nat} {err : Option Word}
    {out : List Line} (hpics : Serviceable ((s.withPics q).acked v).pics) :
    Launching img base i j ((s.withPics q).returned img σ v err out) := by
  have hcpu : ((s.withPics q).returned img σ v err out).cpu = { s.cpu with shadow := false } :=
    returned_cpu h.cpl
  have harea (b : Word) (hb : ¬ StackArea s.frameTop b) :
      ((s.withPics q).returned img σ v err out).mem b = s.mem b :=
    returned_area (s := s.withPics q) hb
  have hframe (k : Nat) (hk : k < launchPushed j) : LaunchWord
      (((s.withPics q).returned img σ v err out).mem.read32 (Mem.below base (k + 1))) k := by
    have hpushed : launchPushed j ≤ 5 := Nat.min_le_right ..
    have hlen : ((s.withPics q).pushed v err).length ≤ 20 := length_pushed_le
    have hdepth := img.cDepth_le
    have htop : (s.withPics q).frameTop = Mem.below base (launchPushed j) := h.frameTop
    rw [Mem.read32_congr (m := s.mem) fun b hb => ?_]
    · exact h.frame k hk
    · simp only [Machine.returned, htop]
      rw [Mem.blit_not_within, Mem.pushWords_not_within]
      · rfl
      · simp only [Within, Mem.below] at *
        bv_omega
      · omega
      · simp only [Within, Mem.below] at *
        bv_omega
  rw [returned_eq] at hcpu harea hframe ⊢
  simp only at hcpu
  rw [hcpu]
  exact
    { kernel := h.kernel.frame h.kernelSp harea
      pics := hpics
      currentTaskIdx := h.currentTaskIdx
      eip := h.eip
      cs := h.cs
      data := h.data
      cr3 := h.cr3
      esp0 := h.esp0
      flags := h.flags
      value := h.value
      port := h.port
      stack := h.stack
      esp := h.esp
      frame := hframe }

/-- A request of another device is served without a disturbance, and the launch goes
on. -/
theorem settles_irq (h : Launching img base i j s) {n : Nat} (hn : n ≠ 0)
    (hirq : s.irq n = some t) : Settles img (Launching img base i j) t := by
  simp only [irq, Option.bind_eq_bind] at hirq
  split at hirq
  · cases hirq
  rw [h.pics.accept] at hirq
  split at hirq
  · next hline =>
    obtain ⟨⟨hlt, -⟩, hfree⟩ := hline
    have hv := irqVector_lt hlt
    have hint := interrupt_eq_of_sp (s := s.withPics (servicing s.pics n)) (h.kernel.withPics _)
      h.kernelSp h.cr3_mem ⟨irqVector n, hv⟩ none
    rw [gateBlock_stub (by simp only [irqVector, clockVector, syscallVector]; omega)] at hint
    rw [Option.bind_some, toNat_irqVector hlt] at hirq
    obtain rfl := Option.some.inj (hirq.symm.trans hint)
    refine settles_stub (.inr (Nat.le_add_right 32 n)) fun σ u hu => ?_
    rw [handle_trampoline (s := s.withPics (servicing s.pics n)) (v := ⟨irqVector n, hv⟩)
      (.inr (Nat.le_add_right 32 n)) (isSome_irqVector n) h.running] at hu
    split at hu
    · split at hu
      · obtain rfl := Option.some.inj hu
        refine h.returned ?_
        exact (acked_servicing h.pics hlt hfree).symm ▸ h.pics
      · cases hu
    · cases hu
  · cases hirq

/-! ## The beginning -/

/-- Inside the clock handler, in the frame of a task that has never run. -/
theorem kernel_enterLaunch (hk : Kernel img s) (hm : Mode img s cur) {stack function : Word} :
    Kernel img (enterLaunch img σ ((s.clockCall img).switched cur (s.clockCall img).cpu.esp) stack
      function) := by
  obtain ⟨hmem, hesp⟩ := clockCall_eq img s
  have htop := hm.kernelTop
  have hlen := length_isrPushed_bounds (s := s)
  have hdone := hk.clockDone (σ := σ) hm
  have htasks : ((s.clockCall img).switched cur (s.clockCall img).cpu.esp).tasks
      = (s.clockDone img σ cur).tasks := by
    simp only [switched, Machine.clockDone, isrSaved, hmem, hesp]
    rfl
  have htables : TablesOk ((s.clockCall img).mem.blit
      ((s.clockCall img).cpu.esp - BitVec.ofNat 32 img.cDepth) img.cDepth σ.stack) := by
    refine htop.sp.tablesOk hk.tables fun b hb => ?_
    rw [hesp, isrSp, blit_area (by omega) img.cDepth_le hb]
    exact isrCall_area hb
  exact
    { gdt := hk.gdt
      idt := hk.idt
      tables := htables
      tss := hdone.tss
      tasks := by
        simp only [enterLaunch]
        rw [htasks]
        exact hdone.tasks
      saved := by
        simp only [enterLaunch]
        rw [htasks]
        exact hdone.saved }

/-- The clock handler in the frame of a task that has never run. -/
theorem of_enterLaunch (hk : Kernel img s) (hm : Mode img s cur)
    (hpics : Serviceable s.pics) (stack function : Word) :
    Launching img (s.isrSp - BitVec.ofNat 32 img.frameSize) (nextOf cur) 0
      (enterLaunch img σ ((s.clockCall img).switched cur (s.clockCall img).cpu.esp) stack
        function) := by
  obtain ⟨hmem, hesp⟩ := clockCall_eq img s
  have htop := hm.kernelTop
  have hbounds := htop.bounds
  have hlen := length_isrPushed_bounds (s := s)
  have hdepth := img.cDepth_le
  have hsize := img.frameSize_le
  have hbase : (s.isrSp - BitVec.ofNat 32 img.frameSize).toNat
      = s.frameTop.toNat - 4 * s.isrPushed.length - img.frameSize := by
    rw [isrSp]
    simp only [Mem.below]
    bv_omega
  have hflags : Eflags.blend (isrFlags s.cpu.eflags) σ.flags Eflags.status
      &&& (userFixed ||| Eflags.nt) = 0 :=
    (Eflags.blend_and _ _ (by decide)).trans hm.isrFlags
  exact
    { kernel := kernel_enterLaunch hk hm
      pics := hpics
      currentTaskIdx := rfl
      eip := rfl
      cs := rfl
      data := ⟨rfl, rfl⟩
      cr3 := hk.pgd (nextOf cur)
      esp0 := hk.interruptStack (nextOf cur)
      flags := hflags
      value := fun h7 => by omega
      port := fun h8 => by omega
      stack := ⟨s.frameTop, htop, by omega, by omega⟩
      esp := by
        simp only [enterLaunch]
        change (s.clockCall img).cpu.esp - BitVec.ofNat 32 img.frameSize = _
        rw [hesp]
        exact (Mem.below_zero _).symm
      frame := fun k hk => absurd hk (Nat.not_lt_zero k) }

end Launching

end Machine

end SecOS
