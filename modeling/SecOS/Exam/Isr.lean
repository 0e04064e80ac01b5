-- SUMMARY: The two service routines: the block they push below the processor's frame, what a C handler takes it for, and the return through it.
import SecOS.Exam.Exec
import SecOS.Exam.Gates
import SecOS.Exam.Trampoline

/-!
# Service routines

`clock_interrupt_isr` and `syscall_isr` push the general registers below the frame of
the processor and call a C handler with a pointer to that block. They push no vector
and no error code, so what the handler takes for an `int_ctx_t` is shifted by two
words against what is on the stack; `ctxRegs` reads the registers of the interrupted
program off such a context.
-/

namespace SecOS

open X86

namespace Machine

variable {img : Image} {σ : Scratch} {s : Machine} {k : Nat}

/-! ## Registers of a program -/

/-- The registers of a program at level 3, the data segments apart. -/
structure Regs where
  eax : Word
  ecx : Word
  edx : Word
  ebx : Word
  ebp : Word
  esi : Word
  edi : Word
  esp : Word
  eip : Word
  eflags : Word
  cs : Sel
  ss : Sel
  deriving DecidableEq

def regsOf (c : Cpu) : Regs where
  eax := c.eax
  ecx := c.ecx
  edx := c.edx
  ebx := c.ebx
  ebp := c.ebp
  esi := c.esi
  edi := c.edi
  esp := c.esp
  eip := c.eip
  eflags := c.eflags
  cs := c.cs
  ss := c.ss

/-- The registers a service routine loads when it returns through `ctx`. -/
def ctxRegs (ctx : IntCtx) : Regs where
  eax := ctx.gpr.eax
  ecx := ctx.gpr.ecx
  edx := ctx.gpr.edx
  ebx := ctx.gpr.ebx
  ebp := ctx.gpr.ebp
  esi := ctx.gpr.esi
  edi := ctx.gpr.edi
  esp := ctx.cs
  eip := ctx.nr
  eflags := ctx.eip
  cs := ctx.err.setWidth 16
  ss := ctx.eflags.setWidth 16

/-- The processor after a return to level 3 with registers `r`. -/
def resumeCpu (gdt : Gdt) (c : Cpu) (r : Regs) : Cpu :=
  { c with
    eax := r.eax, ecx := r.ecx, edx := r.edx, ebx := r.ebx, ebp := r.ebp, esi := r.esi
    edi := r.edi, esp := r.esp, eip := r.eip, eflags := r.eflags, cs := r.cs, ss := r.ss
    shadow := false
    ds := gdt.outerData 3 c.ds, es := gdt.outerData 3 c.es
    fs := gdt.outerData 3 c.fs, gs := gdt.outerData 3 c.gs }

@[simp] theorem regsOf_resumeCpu (gdt : Gdt) (c : Cpu) (r : Regs) :
    regsOf (resumeCpu gdt c r) = r := rfl

/-! ## Up to the call -/

/-- A service routine at its call, when the machine was `s` at its entry. -/
def isrCall (img : Image) (b : Block) (s : Machine) : Machine :=
  { s with
    cpu := { s.cpu with
      eax := Mem.below s.cpu.esp 8, esp := Mem.below s.cpu.esp 8
      eflags := s.cpu.eflags &&& ~~~Eflags.intr, eip := img.addr ⟨b, 6⟩, shadow := false }
    mem := s.mem.pushWords s.cpu.esp s.cpu.gprs }

theorem straight_isr {b : Block} {f : CFun} (htext : text b = isrText f) (h : s.At img ⟨b, 0⟩)
    (hoff : s.IntrOff) : Straight img IntrOff 6 s (s.isrCall img b) := by
  have hops := straight_off isrPrologue h (by rw [htext]; rfl) hoff (by decide)
  simp only [afterOps, evalOps_isrPrologue] at hops
  exact hops

/-- What a service routine finds on the stack, in the order it was pushed. -/
def isrPushed (s : Machine) : List Word :=
  let frame := s.cpu.trapFrame none
  frame ++ { s.cpu with esp := Mem.below s.frameTop frame.length }.gprs

/-- The stack pointer at the call. -/
def isrSp (s : Machine) : Word := Mem.below s.frameTop s.isrPushed.length

theorem isrCall_entered {b : Block} {a : Word} :
    ((s.entered a none).isrCall img b).mem = s.mem.pushWords s.frameTop s.isrPushed
      ∧ ((s.entered a none).isrCall img b).cpu.esp = s.isrSp := by
  simp only [isrCall, entered, isrPushed, isrSp, Mem.pushWords_append, Mem.below_below,
    List.length_append, Cpu.gprs, List.length_cons, List.length_nil]
  exact ⟨trivial, trivial⟩

/-- What the handler takes for an `int_ctx_t` when it interrupts level 3. The routine
has pushed no vector and no error code, so the processor's frame stands two fields too
early, and the last two fields lie above the stack. -/
def isrCtx (s : Machine) : IntCtx where
  gpr :=
    { edi := s.cpu.edi, esi := s.cpu.esi, ebp := s.cpu.ebp, esp := Mem.below s.frameTop 5
      ebx := s.cpu.ebx, edx := s.cpu.edx, ecx := s.cpu.ecx, eax := s.cpu.eax }
  nr := s.cpu.eip
  err := s.cpu.cs.setWidth 32
  eip := s.cpu.eflags
  cs := s.cpu.esp
  eflags := s.cpu.ss.setWidth 32
  esp := s.mem.read32 s.frameTop
  ss := s.mem.read32 (s.frameTop + 4)

theorem isrPushed_ring3 (h : s.cpu.cpl ≠ 0) :
    s.isrPushed = [s.cpu.ss.setWidth 32, s.cpu.esp, s.cpu.eflags, s.cpu.cs.setWidth 32, s.cpu.eip,
      s.cpu.eax, s.cpu.ecx, s.cpu.edx, s.cpu.ebx, Mem.below s.frameTop 5, s.cpu.ebp, s.cpu.esi,
      s.cpu.edi] := by
  rw [isrPushed, Cpu.trapFrame, if_neg h]
  rfl

theorem isrPushed_ring0 (h : s.cpu.cpl = 0) :
    s.isrPushed = [s.cpu.eflags, s.cpu.cs.setWidth 32, s.cpu.eip,
      s.cpu.eax, s.cpu.ecx, s.cpu.edx, s.cpu.ebx, Mem.below s.frameTop 3, s.cpu.ebp, s.cpu.esi,
      s.cpu.edi] := by
  rw [isrPushed, Cpu.trapFrame, if_pos h]
  rfl

theorem load_isrPushed (h : s.cpu.cpl ≠ 0) :
    IntCtx.load (s.mem.pushWords s.frameTop s.isrPushed) s.isrSp = s.isrCtx := by
  have hlen : s.isrPushed.length = 13 := by rw [isrPushed_ring3 h]; rfl
  have hbelow : Mem.below s.frameTop 13 + BitVec.ofNat 32 (4 * 13) = s.frameTop := by
    simp only [Mem.below]; bv_omega
  have hread := Mem.readWords_pushWords s.mem s.frameTop s.isrPushed (by rw [hlen]; decide)
  have habove := Mem.readWords_pushWords_above s.mem s.frameTop s.isrPushed (n := 2)
    (by rw [hlen]; decide)
  rw [IntCtx.load, isrSp]
  rw [hlen] at hread ⊢
  rw [show intCtxWords = 13 + 2 from rfl, Mem.readWords_append, hread, hbelow, habove,
    isrPushed_ring3 h]
  rfl

/-- What the handler saves are the registers of the interrupted program. -/
@[simp] theorem ctxRegs_isrCtx (s : Machine) : ctxRegs s.isrCtx = regsOf s.cpu := by
  have hsel (x : Sel) : ((x.setWidth 32 : Word).setWidth 16 : Sel) = x := by simp
  simp only [ctxRegs, isrCtx, regsOf, hsel]

/-- A service routine that interrupts level 0 hands over the selector of level 0. -/
theorem ctxRegs_load_ring0 (hcpl : s.cpu.cpl = 0) :
    (ctxRegs (IntCtx.load (s.mem.pushWords s.frameTop s.isrPushed) s.isrSp)).cs = s.cpu.cs := by
  have hlen : s.isrPushed.length = 11 := by rw [isrPushed_ring0 hcpl]; rfl
  have hread := Mem.readWords_pushWords s.mem s.frameTop s.isrPushed (by rw [hlen]; decide)
  rw [hlen] at hread
  rw [IntCtx.load, isrSp, hlen, show intCtxWords = 11 + 4 from rfl, Mem.readWords_append, hread,
    isrPushed_ring0 hcpl]
  change ((s.cpu.cs.setWidth 32 : Word).setWidth 16 : Sel) = s.cpu.cs
  simp

/-! ## Back to level 3 -/

/-- The flags level 3 cannot change: IF, IOPL and VM. -/
def userFixed : Word := Eflags.intr ||| Eflags.iopl ||| Eflags.vm

/-- The flags of a service routine at its call, when they were `flags` at the
interrupt. -/
def isrFlags (flags : Word) : Word := flags &&& ~~~Eflags.gateClear &&& ~~~Eflags.intr

theorem isrFlags_eq (f : Word) : isrFlags f = f &&& ~~~(Eflags.gateClear ||| Eflags.intr) := by
  rw [isrFlags, BitVec.and_assoc, BitVec.not_or]

theorem isrFlags_and {f k : Word} (hk : k &&& ~~~(Eflags.gateClear ||| Eflags.intr) = 0) :
    isrFlags f &&& k = 0 := by
  rw [isrFlags_eq, Eflags.and_not_and _ hk]

/-- Registers that a program at level 3 can have: the selectors of that level, with
interrupts on and no privilege in the flags. -/
structure UserRegs (r : Regs) : Prop where
  cs : r.cs = c3Sel
  ss : r.ss = d3Sel
  flags : r.eflags &&& userFixed = Eflags.intr

/-- Setting IF leaves the other flags clear that were clear. -/
theorem or_intr_and {f k : Word} (hf : f &&& k = 0) (hk : Eflags.intr &&& k = 0) :
    (f ||| Eflags.intr) &&& k = 0 := by
  rw [BitVec.and_comm, BitVec.and_or_distrib_left, BitVec.and_comm k f, hf, BitVec.and_comm k, hk]
  rfl

/-- `popa`, `sti` and `iret` over the context of a program at level 3. -/
theorem handle_isrReturn {b : Block} {f : CFun} {ctx : IntCtx} {tss : Word}
    (htext : text b = isrText f) (h : s.At img ⟨b, 7⟩) (hgdt : s.gdt = examGdt tss)
    (hw : s.mem.readWords s.cpu.esp 13 = ctx.words.take 13) (hgood : UserRegs (ctxRegs ctx))
    (hif : s.cpu.eflags &&& Eflags.intr = 0) (hnt : s.cpu.eflags &&& Eflags.nt = 0) :
    s.handle img σ (k + 3) = some { s with cpu := resumeCpu s.gdt s.cpu (ctxRegs ctx) } := by
  have h8 : s.mem.readWords s.cpu.esp 8
      = [ctx.gpr.edi, ctx.gpr.esi, ctx.gpr.ebp, ctx.gpr.esp, ctx.gpr.ebx, ctx.gpr.edx,
          ctx.gpr.ecx, ctx.gpr.eax] := by
    rw [Mem.readWords_take _ _ (n := 13) (by omega), hw]
    rfl
  have h5 : s.mem.readWords (s.cpu.esp + 32) 5
      = [ctx.nr, ctx.err, ctx.eip, ctx.cs, ctx.eflags] := by
    have hslice := Mem.readWords_slice s.mem s.cpu.esp (k := 8) (j := 5) (n := 13) (by omega)
    rw [hw] at hslice
    exact hslice
  have hsti := or_intr_and hnt (by decide)
  have hcs : ctx.err.setWidth 16 = c3Sel := hgood.cs
  have hss : ctx.eflags.setWidth 16 = d3Sel := hgood.ss
  have hvm : ctx.eip &&& Eflags.vm = 0 :=
    (Eflags.and_of_and (f := ctx.eip) hgood.flags (by decide)).trans (by decide)
  have hcode : s.gdt.codeOk 3 (ctx.err.setWidth 16) = true := by
    rw [hcs, hgdt, codeOk_c3Sel]
  have hstack : s.gdt.stackOk 3 (ctx.eflags.setWidth 16) = true := by
    rw [hss, hgdt, stackOk_d3Sel]
  have hstraight := straight_off [.popa, .sti] h (by rw [htext]; rfl) hif (by decide)
  have hops := evalOps_isrEpilogue h8 hif
  refine (hstraight.handle (k := k + 1)).trans ?_
  refine (handle_iret ⟨b, 9⟩ (at_afterOps h) (by rw [Pc.instr?, htext]; rfl)).trans ?_
  simp only [afterOps, hops]
  have hiret := Cpu.iret_outer (g := s.gdt) (m := s.mem)
    (c := { s.cpu with
      eax := ctx.gpr.eax, ecx := ctx.gpr.ecx, edx := ctx.gpr.edx, ebx := ctx.gpr.ebx
      ebp := ctx.gpr.ebp, esi := ctx.gpr.esi, edi := ctx.gpr.edi, esp := s.cpu.esp + 32
      eip := img.addr ⟨b, 9⟩, eflags := s.cpu.eflags ||| Eflags.intr, shadow := true })
    h5 hsti hvm (by rw [hcs]; rfl) hcode hstack
  exact congrArg (Option.map fun cpu => { s with cpu }) hiret

end Machine

end SecOS
