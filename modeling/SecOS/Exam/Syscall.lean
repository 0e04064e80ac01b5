-- SUMMARY: The system call: the word it reads for its caller, and the whole path from `int $0x80` back to the caller.
import SecOS.Exam.Isr

/-!
# System call

`syscall_isr` is built like the routine of the clock. Its handler takes EAX of the
caller for a pointer and reads a word through it at level 0; everything else comes
back to the caller as it was.
-/

namespace SecOS

open X86

namespace Machine

variable {img : Image} {σ : Scratch} {s : Machine} {k : Nat}

/-! ## The call -/

/-- The machine at the call of the handler. -/
def syscallCall (img : Image) (s : Machine) : Machine :=
  (s.entered (img.addr ⟨.syscallIsr, 0⟩) none).isrCall img .syscallIsr

theorem syscallCall_eq (img : Image) (s : Machine) :
    (s.syscallCall img).mem = s.mem.pushWords s.frameTop s.isrPushed
    ∧ (s.syscallCall img).cpu.esp = s.isrSp := isrCall_entered

theorem straight_syscallCall :
    Straight img IntrOff 6 (s.entered (img.addr ⟨.syscallIsr, 0⟩) none) (s.syscallCall img) :=
  straight_isr rfl ⟨rfl, cpl_c0Sel⟩ intrOff_entered

/-- Memory when the handler reads the caller's word: the frame of the interrupt and
its own activation are on the stack. -/
def syscallMem (img : Image) (σ : Scratch) (s : Machine) : Mem :=
  (enterC img σ (s.syscallCall img) (img.addr ⟨.syscallIsr, 7⟩)).mem

/-- What the handler finds behind the caller's EAX; `none` is a page fault. -/
def syscallRead (img : Image) (σ : Scratch) (s : Machine) : Option Word :=
  readLinear (s.syscallMem img σ) s.cpu.cr3 s.cpu.eax

def syscallLine (value : Word) : Line := ⟨"Counter value: %u\n", [.word value]⟩

/-- A port that belongs to neither controller. -/
theorem out_syscallPort (p : Pics) (v : Byte) : p.out 0x80 v = p := rfl

theorem callC_syscall (img : Image) (σ : Scratch) (pc : Pc) (hctx : s.cpu.eax = s.cpu.esp)
    (hdata : s.dataUsable = true) :
    s.callC img σ .syscallHandler (img.addr pc.next)
      = (readLinear (enterC img σ s (img.addr pc.next)).mem s.cpu.cr3
          (IntCtx.load s.mem s.cpu.esp).gpr.eax).map fun v =>
        { s.called img σ pc with
          console := s.console ++ [syscallLine v]
          ports := s.ports ++ [⟨.syscallHandler, 0x80, 0x80⟩] } := by
  have hload := load_enterC img σ s (img.addr pc.next)
  rw [dataUsable] at hdata
  simp only [callC, hdata, hctx, syscallHandler, hload, enterC_cpu, Bool.not_true,
    Bool.false_eq_true, if_false, Option.bind_eq_bind]
  cases readLinear (enterC img σ s (img.addr pc.next)).mem s.cpu.cr3
      (IntCtx.load s.mem s.cpu.esp).gpr.eax with
  | none => rfl
  | some v =>
    simp only [Option.pure_def, Option.bind_some, Option.map_some, debug, outb, leaveC, called,
      out_syscallPort, enterC_cpu, blit_enterC]
    rfl

/-! ## From the entry to the caller -/

/-- The machine after a system call that printed `v`. -/
def syscallDone (img : Image) (σ : Scratch) (s : Machine) (v : Word) : Machine :=
  { s with
    cpu := resumeCpu s.gdt s.cpu (regsOf s.cpu)
    mem := (s.mem.pushWords s.frameTop s.isrPushed).blit (s.isrSp - BitVec.ofNat 32 img.cDepth)
      img.cDepth σ.stack
    console := s.console ++ [syscallLine v]
    ports := s.ports ++ [⟨.syscallHandler, 0x80, 0x80⟩] }

variable (img σ) in
/-- The whole system call of a program at level 3. -/
theorem handle_syscall {tss : Word} (hgdt : s.gdt = examGdt tss) (hcpl : s.cpu.cpl ≠ 0)
    (hregs : UserRegs (regsOf s.cpu)) :
    (s.entered (img.addr ⟨.syscallIsr, 0⟩) none).handle img σ handlerFuel
      = if s.dataUsable = true then (s.syscallRead img σ).map (s.syscallDone img σ) else none := by
  obtain ⟨hmem, hesp⟩ := syscallCall_eq img s
  refine (straight_syscallCall.handle (k := 26)).trans ?_
  refine (handle_call ⟨.syscallIsr, 6⟩ .syscallHandler (k := 25)
    (by exact ⟨rfl, cpl_c0Sel⟩) rfl).trans ?_
  by_cases hdata : s.dataUsable = true
  · have hload : IntCtx.load (s.syscallCall img).mem (s.syscallCall img).cpu.esp = s.isrCtx := by
      rw [hmem, hesp, load_isrPushed hcpl]
    have hcall := callC_syscall img σ (s := s.syscallCall img) ⟨.syscallIsr, 6⟩ rfl hdata
    rw [hload] at hcall
    refine (congrArg (fun o => o.bind fun s' => s'.handle img σ 25) hcall).trans ?_
    rw [if_pos hdata]
    have hread : readLinear (enterC img σ (s.syscallCall img)
        (img.addr (Pc.next ⟨.syscallIsr, 6⟩))).mem (s.syscallCall img).cpu.cr3
          s.isrCtx.gpr.eax = s.syscallRead img σ := rfl
    rw [hread]
    cases s.syscallRead img σ with
    | none => rfl
    | some v =>
      have hw : ((s.syscallCall img).called img σ ⟨.syscallIsr, 6⟩).mem.readWords
          (s.syscallCall img).cpu.esp 13 = s.isrCtx.words.take 13 := by
        rw [called_readWords (by omega), Mem.readWords_take _ _ (n := intCtxWords) (by decide),
          ← IntCtx.words_load, hload]
      refine (handle_isrReturn (b := .syscallIsr) (f := .syscallHandler) (k := 22)
        (s := { (s.syscallCall img).called img σ ⟨.syscallIsr, 6⟩ with
          console := s.console ++ [syscallLine v]
          ports := s.ports ++ [⟨.syscallHandler, 0x80, 0x80⟩] }) rfl
        (by exact ⟨rfl, cpl_c0Sel⟩) (by exact hgdt) hw (by rw [ctxRegs_isrCtx]; exact hregs)
        ?_ ?_).trans ?_
      · exact (Eflags.blend_and _ _ (by decide)).trans (isrFlags_and (by decide))
      · exact (Eflags.blend_and _ _ (by decide)).trans (isrFlags_and (by decide))
      · simp only [ctxRegs_isrCtx, Option.map_some, called, syscallDone, hmem, hesp]
        rfl
  · rw [if_neg hdata, callC_not_usable (s := s.syscallCall img) hdata, Option.bind_none]

end Machine

end SecOS
