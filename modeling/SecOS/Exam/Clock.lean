-- SUMMARY: The clock interrupt: what the C handler does to the machine, and the whole path from its entry to the task it switches to.
import SecOS.Exam.Isr

/-!
# Clock interrupt

`clock_interrupt_isr` pushes the registers below the processor's frame and calls the
handler. The handler saves that block as the context of the running task, switches
to the next one, and either copies the saved context of that task over the block and
returns, or starts the task with a frame of its own.
-/

namespace SecOS

open X86

namespace Machine

variable {img : Image} {σ : Scratch} {s : Machine} {k : Nat}

/-! ## Task indices -/

/-- `current_task_idx` before the first switch and after it. -/
def idxWord : Option (Fin 2) → Word
  | none => -1
  | some i => BitVec.ofNat 32 i

def nextOf : Option (Fin 2) → Fin 2
  | none => ⟨0, Nat.two_pos⟩
  | some i => i.rev

theorem idxWord_add_one (cur : Option (Fin 2)) :
    (idxWord cur + 1) % 2 = idxWord (some (nextOf cur)) := by
  match cur with
  | none => rfl
  | some 0 => rfl
  | some 1 => rfl

@[simp] theorem taskAt_idxWord (i : Fin 2) : taskAt (idxWord (some i)) = some i := by
  match i with
  | 0 => rfl
  | 1 => rfl

theorem idxWord_some_ne (i : Fin 2) : idxWord (some i) ≠ -1 := by
  match i with
  | 0 => decide
  | 1 => decide

theorem nextOf_ne (i : Fin 2) : nextOf (some i) ≠ i := by
  match i with
  | 0 => decide
  | 1 => decide

/-! ## The C handler -/

/-- The tasks after the interrupted context has been copied into the running one. -/
def savedTasks (tasks : Fin 2 → Task) (cur : Option (Fin 2)) (ctx : IntCtx) : Fin 2 → Task :=
  match cur with
  | none => tasks
  | some i => Function.update tasks i { tasks i with context := ctx, contextSaved := 1 }

@[simp] theorem savedTasks_nextOf (tasks : Fin 2 → Task) (cur : Option (Fin 2)) (ctx : IntCtx) :
    savedTasks tasks cur ctx (nextOf cur) = tasks (nextOf cur) := by
  cases cur with
  | none => rfl
  | some i => exact Function.update_of_ne (nextOf_ne i) _ _

/-- What the handler prints. -/
def clockLine : Fin 2 → Line
  | 0 => ⟨"Increasing Counter... \n", []⟩
  | 1 => ⟨"Printing Counter... \n", []⟩

/-- The machine once `current_task_idx` is the next task's: the interrupted context is
saved, and the data segments, the ring-0 stack and the page directory are those of the
next task. -/
def switched (s : Machine) (cur : Option (Fin 2)) (ctx : Word) : Machine :=
  let next := s.tasks (nextOf cur)
  { s with
    console := s.console ++ [clockLine (nextOf cur)]
    tasks := savedTasks s.tasks cur (IntCtx.load s.mem ctx)
    cpu := { s.cpu with ds := d3Sel, es := d3Sel, fs := d3Sel, gs := d3Sel, cr3 := next.pgd }
    tss := { s.tss with s0 := { s.tss.s0 with esp := next.interruptStack } }
    currentTaskIdx := idxWord (some (nextOf cur)) }

/-- A saved context is copied over the block on the stack. -/
def resumed (s : Machine) (cur : Option (Fin 2)) (ctx : Word) : Machine :=
  { s.switched cur ctx with
    mem := s.mem.writeWords ctx (s.tasks (nextOf cur)).context.words }.outb
      .clockInterruptHandler 32 32

/-- DS can be used, and ES too when there is a task whose context `memcpy` saves. -/
def clockUsable (s : Machine) : Bool :=
  s.dataUsable && (s.currentTaskIdx == -1 || s.gdt.dataUsable s.cpu.es)

theorem clockUsable_iff {cur : Option (Fin 2)} (h : s.currentTaskIdx = idxWord cur) :
    s.clockUsable = true
      ↔ s.dataUsable = true ∧ (cur.isSome = true → s.gdt.dataUsable s.cpu.es = true) := by
  cases cur with
  | none =>
    have hnone : s.currentTaskIdx = -1 := h
    simp [clockUsable, hnone]
  | some i =>
    have hne : (s.currentTaskIdx == -1) = false :=
      beq_eq_false_iff_ne.mpr (h ▸ idxWord_some_ne i)
    simp only [clockUsable, hne, Bool.false_or, Bool.and_eq_true, Option.isSome_some, forall_const]

theorem saveContext_eq {cur : Option (Fin 2)} (ctx : Word) (h : s.currentTaskIdx = idxWord cur)
    (hes : cur.isSome = true → s.gdt.dataUsable s.cpu.es = true) :
    s.saveContext ctx
      = some { s with tasks := savedTasks s.tasks cur (IntCtx.load s.mem ctx) } := by
  cases cur with
  | none =>
    have heq : ¬ s.currentTaskIdx ≠ -1 := not_not_intro h
    rw [saveContext, if_neg heq]
    rfl
  | some i =>
    have hne : s.currentTaskIdx ≠ -1 := by rw [h]; exact idxWord_some_ne i
    rw [saveContext, if_pos hne, hes rfl, h, taskAt_idxWord]
    rfl

/-- `memcpy` faults. -/
theorem saveContext_not_usable {i : Fin 2} (ctx : Word) (h : s.currentTaskIdx = idxWord (some i))
    (hes : s.gdt.dataUsable s.cpu.es = false) : s.saveContext ctx = none := by
  have hne : s.currentTaskIdx ≠ -1 := by rw [h]; exact idxWord_some_ne i
  rw [saveContext, if_pos hne, hes]
  rfl

theorem debug_clockLine (next : Fin 2) :
    (if idxWord (some next) = 1 then s.debug "Printing Counter... \n" []
      else s.debug "Increasing Counter... \n" [])
      = { s with console := s.console ++ [clockLine next] } := by
  match next with
  | 0 => rfl
  | 1 => rfl

/-- The handler's effect, when the stack stays mapped in the next task's directory. -/
theorem clockInterruptHandler_eq {cur : Option (Fin 2)} {ctx : Word}
    (hcur : s.currentTaskIdx = idxWord cur)
    (hes : cur.isSome = true → s.gdt.dataUsable s.cpu.es = true)
    (hds : s.gdt.dataOk 0 d3Sel = true) (hmap : (s.switched cur ctx).stackMapped = true) :
    s.clockInterruptHandler ctx
      = some (if (s.tasks (nextOf cur)).contextSaved = 1 then (.ret, s.resumed cur ctx)
          else (.launch (s.tasks (nextOf cur)).stack (s.tasks (nextOf cur)).function,
            s.switched cur ctx)) := by
  have hsave :=
    saveContext_eq (s := { s with console := s.console ++ [clockLine (nextOf cur)] }) ctx hcur hes
  simp only [clockInterruptHandler, hcur, idxWord_add_one, debug_clockLine]
  simp only [hcur] at hsave
  rw [hsave]
  simp only [Option.bind_eq_bind, Option.bind_some, setDataSegs, hds, if_true, taskAt_idxWord,
    setCr3, savedTasks_nextOf]
  split
  · simp only [Option.bind_some, savedTasks_nextOf]
    split <;> rfl
  · next h => exact absurd hmap h

theorem clockInterruptHandler_not_usable {i : Fin 2} (ctx : Word)
    (hcur : s.currentTaskIdx = idxWord (some i)) (hes : s.gdt.dataUsable s.cpu.es = false) :
    s.clockInterruptHandler ctx = none := by
  have hsave := saveContext_not_usable
    (s := { s with console := s.console ++ [clockLine (nextOf (some i))] }) ctx hcur hes
  simp only [clockInterruptHandler, hcur, idxWord_add_one, debug_clockLine]
  simp only [hcur] at hsave
  rw [hsave]
  rfl

/-! ## The call -/

/-- The machine at the call of the clock handler. -/
def clockCall (img : Image) (s : Machine) : Machine :=
  (s.entered (img.addr ⟨.clockInterruptIsr, 0⟩) none).isrCall img .clockInterruptIsr

theorem clockCall_eq (img : Image) (s : Machine) :
    (s.clockCall img).mem = s.mem.pushWords s.frameTop s.isrPushed
    ∧ (s.clockCall img).cpu.esp = s.isrSp := isrCall_entered

theorem straight_clockCall :
    Straight img IntrOff 6 (s.entered (img.addr ⟨.clockInterruptIsr, 0⟩) none)
      (s.clockCall img) :=
  straight_isr rfl ⟨rfl, cpl_c0Sel⟩ intrOff_entered

/-- The call of the clock handler, when the next task's directory maps the stack. -/
theorem callC_clock (img : Image) (σ : Scratch) (pc : Pc) (cur : Option (Fin 2))
    (hctx : s.cpu.eax = s.cpu.esp) (husable : s.clockUsable = true)
    (hcur : s.currentTaskIdx = idxWord cur) (hds : s.gdt.dataOk 0 d3Sel = true)
    (hmap : ((enterC img σ s (img.addr pc.next)).switched cur s.cpu.esp).stackMapped = true) :
    s.callC img σ .clockInterruptHandler (img.addr pc.next)
      = some (if (s.tasks (nextOf cur)).contextSaved = 1 then
            (s.resumed cur s.cpu.esp).called img σ pc
          else
            enterLaunch img σ (s.switched cur s.cpu.esp) (s.tasks (nextOf cur)).stack
              (s.tasks (nextOf cur)).function) := by
  have hload := load_enterC img σ s (img.addr pc.next)
  obtain ⟨hdata, hes⟩ := (clockUsable_iff hcur).mp husable
  have hclock :=
    clockInterruptHandler_eq (s := enterC img σ s (img.addr pc.next)) hcur hes hds hmap
  rw [dataUsable] at hdata
  simp only [callC, hdata, hctx, hclock, Bool.not_true, Bool.false_eq_true, if_false,
    Option.bind_eq_bind, Option.bind_some, enterC_tasks]
  by_cases hsaved : (s.tasks (nextOf cur)).contextSaved = 1
  · have hmem : ((enterC img σ s (img.addr pc.next)).mem.writeWords s.cpu.esp
          (s.tasks (nextOf cur)).context.words).blit
            (s.cpu.esp - BitVec.ofNat 32 img.cDepth) img.cDepth σ.stack
        = (s.mem.writeWords s.cpu.esp (s.tasks (nextOf cur)).context.words).blit
            (s.cpu.esp - BitVec.ofNat 32 img.cDepth) img.cDepth σ.stack :=
      Mem.blit_congr fun b hb => Mem.writeWords_congr _ (enterC_mem_not_within hb)
    simp only [hsaved, if_true, leaveC, called, resumed, switched, outb, hload, hmem, enterC_cpu,
      enterC_pics, enterC_gdt, enterC_idt, enterC_tss, enterC_tasks, enterC_console, enterC_ports]
    rfl
  · have hmem := blit_enterC img σ s (img.addr pc.next)
    simp only [hsaved, if_false, enterLaunch, switched, hload, hmem, enterC_cpu, enterC_pics,
      enterC_gdt, enterC_idt, enterC_tss, enterC_tasks, enterC_console, enterC_ports]
    rfl

/-- Nor does the handler come back where a segment it uses cannot be used. -/
theorem callC_clock_not_usable (img : Image) (σ : Scratch) {cur : Option (Fin 2)} {ret : Word}
    (hcur : s.currentTaskIdx = idxWord cur) (h : ¬ s.clockUsable = true) :
    s.callC img σ .clockInterruptHandler ret = none := by
  by_cases hdata : s.dataUsable = true
  · rw [clockUsable_iff hcur, not_and, Classical.not_imp] at h
    obtain ⟨hsome, hes⟩ := h hdata
    obtain ⟨i, rfl⟩ := Option.isSome_iff_exists.mp hsome
    have hclock := clockInterruptHandler_not_usable (s := enterC img σ s ret) s.cpu.eax hcur
      (Bool.eq_false_iff.mpr hes)
    rw [dataUsable] at hdata
    simp only [callC, hdata, Bool.not_true, Bool.false_eq_true, if_false, hclock,
      Option.bind_eq_bind, Option.bind_none]
  · exact callC_not_usable hdata

/-! ## The first launch -/

/-- The registers with which task `t` starts. -/
def launchRegs (σ : Scratch) (flags : Word) (t : Task) : Regs where
  eax := 32
  ecx := t.stack
  edx := 32
  ebx := σ.ebx
  ebp := σ.ebp
  esi := σ.esi
  edi := σ.edi
  esp := t.stack
  eip := t.function
  eflags := Eflags.blend (isrFlags flags) σ.flags Eflags.status ||| Eflags.intr
  cs := c3Sel
  ss := d3Sel

/-- What the launch pushes for its `iret`, in the order it is pushed. -/
def launchFrame (c : Cpu) : List Word :=
  [d3Sel.setWidth 32, c.ecx, c.eflags ||| Eflags.intr, c3Sel.setWidth 32, c.edx]

/-- The instructions of the launch before its `outb`. -/
def launchOps : List Op :=
  [.sti, .pushi (d3Sel.setWidth 32), .push .ecx, .pushf, .pushi (c3Sel.setWidth 32), .push .edx,
    .movi .eax 32, .movi .edx 32]

theorem evalOps_launch (c : Cpu) (m : Mem) :
    evalOps launchOps c m
      = ({ c with
            eax := 32, edx := 32, esp := Mem.below c.esp 5
            eflags := c.eflags ||| Eflags.intr, shadow := false },
          m.pushWords c.esp (launchFrame c)) := by
  have h5 : c.esp - 4 - 4 - 4 - 4 - 4 = Mem.below c.esp 5 := by
    simp only [Mem.below]; bv_omega
  simp only [launchOps, launchFrame, evalOps_cons, evalOps_nil, Op.eval, Cpu.sti, Cpu.get, Cpu.set,
    Mem.pushWords, h5]

/-- The machine at the `iret` of a launch that began in `s`. -/
def launchReady (img : Image) (s : Machine) : Machine :=
  { s.outb .clockInterruptHandler 32 32 with
    cpu := { s.cpu with
      eax := 32, edx := 32, esp := Mem.below s.cpu.esp 5
      eflags := s.cpu.eflags ||| Eflags.intr, eip := img.addr ⟨.firstLaunch, 10⟩, shadow := false }
    mem := s.mem.pushWords s.cpu.esp (launchFrame s.cpu) }

theorem straight_launch (h : s.At img ⟨.firstLaunch, 0⟩) :
    Straight img (fun _ => True) 10 s (s.launchReady img) := by
  have hif : (s.cpu.eflags ||| Eflags.intr).getLsbD 9 = true := by simp [Eflags.intr]
  have hor : s.cpu.eflags ||| Eflags.intr ||| Eflags.intr = s.cpu.eflags ||| Eflags.intr := by
    rw [BitVec.or_assoc, BitVec.or_self]
  have hat : (s.afterOps img launchOps ⟨.firstLaunch, 8⟩).At img ⟨.firstLaunch, 8⟩ :=
    at_afterOps h
  have h1 : Straight img (fun _ => True) 8 s _ :=
    straight_ops launchOps (b := .firstLaunch) (n := 0) h rfl fun _ _ => trivial
  have h2 := h1.trans (straight_outDx ⟨.firstLaunch, 8⟩ hat rfl trivial)
  have h3 := h2.trans (straight_ops [.sti] (b := .firstLaunch) (n := 9) (at_jump hat.cpl) rfl
    fun _ _ => trivial)
  simp only [afterOps, evalOps_launch, outb, jump, evalOps_cons, evalOps_nil, Op.eval, Cpu.sti,
    Cpu.intrFlag, hif, hor, Bool.not_true] at h3
  exact h3

/-- The launch ends the interrupt and enters the task at its function. -/
theorem handle_launch {tss : Word} (h : s.At img ⟨.firstLaunch, 0⟩) (hgdt : s.gdt = examGdt tss)
    (hnt : s.cpu.eflags &&& Eflags.nt = 0) (hvm : s.cpu.eflags &&& Eflags.vm = 0) :
    s.handle img σ (k + 11)
      = some { s.launchReady img with
          cpu := resumeCpu s.gdt s.cpu
            { regsOf s.cpu with
              eax := 32, edx := 32, esp := s.cpu.ecx, eip := s.cpu.edx
              eflags := s.cpu.eflags ||| Eflags.intr, cs := c3Sel, ss := d3Sel } } := by
  have hread := Mem.readWords_pushWords s.mem s.cpu.esp (launchFrame s.cpu)
    (by simp [launchFrame])
  have hiret := Cpu.iret_outer (g := s.gdt) (c := (s.launchReady img).cpu) hread
    (or_intr_and hnt (by decide)) (or_intr_and hvm (by decide)) rfl
    (by rw [hgdt]; exact codeOk_c3Sel tss) (by rw [hgdt]; exact stackOk_d3Sel tss)
  refine ((straight_launch h).handle (k := k + 1)).trans ?_
  refine (handle_iret ⟨.firstLaunch, 10⟩ (by exact ⟨rfl, h.cpl⟩) rfl).trans ?_
  exact congrArg (Option.map fun cpu => { s.launchReady img with cpu }) hiret

/-! ## From the entry to the next task -/

/-- The context that the handler is given. -/
def isrSaved (s : Machine) : IntCtx := IntCtx.load (s.mem.pushWords s.frameTop s.isrPushed) s.isrSp

/-- The registers of the next task when it goes on or starts. -/
def nextRegs (σ : Scratch) (s : Machine) (cur : Option (Fin 2)) : Regs :=
  let t := s.tasks (nextOf cur)
  if t.contextSaved = 1 then ctxRegs t.context else launchRegs σ s.cpu.eflags t

/-- Memory after the clock interrupt. -/
def clockMem (img : Image) (σ : Scratch) (s : Machine) (cur : Option (Fin 2)) : Mem :=
  let m := s.mem.pushWords s.frameTop s.isrPushed
  let t := s.tasks (nextOf cur)
  let low := s.isrSp - BitVec.ofNat 32 img.cDepth
  if t.contextSaved = 1 then (m.writeWords s.isrSp t.context.words).blit low img.cDepth σ.stack
  else
    let r := launchRegs σ s.cpu.eflags t
    (m.blit low img.cDepth σ.stack).pushWords (s.isrSp - BitVec.ofNat 32 img.frameSize)
      [r.ss.setWidth 32, r.esp, r.eflags, r.cs.setWidth 32, r.eip]

/-- The machine after the clock interrupt. -/
def clockDone (img : Image) (σ : Scratch) (s : Machine) (cur : Option (Fin 2)) : Machine :=
  let t := s.tasks (nextOf cur)
  { s with
    cpu := resumeCpu s.gdt
      { s.cpu with ds := d3Sel, es := d3Sel, fs := d3Sel, gs := d3Sel, cr3 := t.pgd }
      (nextRegs σ s cur)
    mem := clockMem img σ s cur
    pics := s.pics.out 32 32
    tss := { s.tss with s0 := { s.tss.s0 with esp := t.interruptStack } }
    currentTaskIdx := idxWord (some (nextOf cur))
    tasks := savedTasks s.tasks cur s.isrSaved
    console := s.console ++ [clockLine (nextOf cur)]
    ports := s.ports ++ [⟨.clockInterruptHandler, 32, 32⟩] }

/-- The return into a task that was interrupted before. -/
theorem handle_resumed {cur : Option (Fin 2)} {tss : Word} (hgdt : s.gdt = examGdt tss)
    (hsaved : (s.tasks (nextOf cur)).contextSaved = 1)
    (hgood : UserRegs (ctxRegs (s.tasks (nextOf cur)).context)) :
    (((s.clockCall img).resumed cur (s.clockCall img).cpu.esp).called img σ
        ⟨.clockInterruptIsr, 6⟩).handle img σ (k + 3)
      = some (s.clockDone img σ cur) := by
  obtain ⟨hmem, hesp⟩ := clockCall_eq img s
  have hwords := Mem.readWords_writeWords (s.clockCall img).mem (s.clockCall img).cpu.esp
    (s.tasks (nextOf cur)).context.words (by simp [intCtxWords])
  have hw : (((s.clockCall img).resumed cur (s.clockCall img).cpu.esp).called img σ
      ⟨.clockInterruptIsr, 6⟩).mem.readWords (s.clockCall img).cpu.esp 13
        = (s.tasks (nextOf cur)).context.words.take 13 := by
    refine (called_readWords (s := (s.clockCall img).resumed cur (s.clockCall img).cpu.esp)
      (by omega)).trans ?_
    rw [Mem.readWords_take _ _ (n := intCtxWords) (by decide)]
    exact congrArg (List.take 13) hwords
  refine (handle_isrReturn (b := .clockInterruptIsr) (f := .clockInterruptHandler) rfl
    (by exact ⟨rfl, cpl_c0Sel⟩) (by exact hgdt) hw hgood ?_ ?_).trans ?_
  · exact (Eflags.blend_and _ _ (by decide)).trans (isrFlags_and (by decide))
  · exact (Eflags.blend_and _ _ (by decide)).trans (isrFlags_and (by decide))
  · simp only [called, resumed, switched, outb, clockDone, clockMem, nextRegs, hsaved, if_true,
      hmem, hesp, isrSaved]
    rfl

/-- The start of a task. -/
theorem handle_launched {cur : Option (Fin 2)} {tss : Word} (hgdt : s.gdt = examGdt tss)
    (hsaved : ¬ (s.tasks (nextOf cur)).contextSaved = 1) :
    (enterLaunch img σ ((s.clockCall img).switched cur (s.clockCall img).cpu.esp)
        (s.tasks (nextOf cur)).stack (s.tasks (nextOf cur)).function).handle img σ (k + 11)
      = some (s.clockDone img σ cur) := by
  obtain ⟨hmem, hesp⟩ := clockCall_eq img s
  refine (handle_launch (s := enterLaunch img σ ((s.clockCall img).switched cur
    (s.clockCall img).cpu.esp) (s.tasks (nextOf cur)).stack (s.tasks (nextOf cur)).function)
    (by exact ⟨rfl, cpl_c0Sel⟩) (by exact hgdt) ?_ ?_).trans ?_
  · exact (Eflags.blend_and _ _ (by decide)).trans (isrFlags_and (by decide))
  · exact (Eflags.blend_and _ _ (by decide)).trans (isrFlags_and (by decide))
  · simp only [enterLaunch, switched, outb, clockDone, clockMem, nextRegs, hsaved, if_false,
      hmem, hesp, isrSaved, launchReady]
    rfl

/-- The whole clock interrupt. The mapping of the stack is what the new page directory
must not lose. -/
theorem handle_clock {cur : Option (Fin 2)} {tss : Word} (hgdt : s.gdt = examGdt tss)
    (hcur : s.currentTaskIdx = idxWord cur)
    (hgood : (s.tasks (nextOf cur)).contextSaved = 1 →
      UserRegs (ctxRegs (s.tasks (nextOf cur)).context))
    (hmap : ((enterC img σ (s.clockCall img) (img.addr ⟨.clockInterruptIsr, 7⟩)).switched cur
      s.isrSp).stackMapped = true) :
    (s.entered (img.addr ⟨.clockInterruptIsr, 0⟩) none).handle img σ handlerFuel
      = if s.clockUsable = true then some (s.clockDone img σ cur) else none := by
  obtain ⟨hmem, hesp⟩ := clockCall_eq img s
  refine (straight_clockCall.handle (k := 26)).trans ?_
  refine (handle_call ⟨.clockInterruptIsr, 6⟩ .clockInterruptHandler (k := 25)
    (by exact ⟨rfl, cpl_c0Sel⟩) rfl).trans ?_
  by_cases husable : s.clockUsable = true
  · rw [← hesp] at hmap
    have hcall := callC_clock img σ (s := s.clockCall img) ⟨.clockInterruptIsr, 6⟩ cur rfl husable
      hcur (by exact hgdt ▸ dataOk_d3Sel tss 0) hmap
    refine (congrArg (fun o => o.bind fun s' => s'.handle img σ 25) hcall).trans ?_
    rw [if_pos husable, Option.bind_some]
    by_cases hsaved : (s.tasks (nextOf cur)).contextSaved = 1
    · refine (congrArg (fun u => Machine.handle img σ 25 u) (if_pos hsaved)).trans ?_
      exact handle_resumed hgdt hsaved (hgood hsaved)
    · refine (congrArg (fun u => Machine.handle img σ 25 u) (if_neg hsaved)).trans ?_
      exact handle_launched hgdt hsaved
  · rw [if_neg husable, callC_clock_not_usable (s := s.clockCall img) img σ hcur husable,
      Option.bind_none]

end Machine

end SecOS
