-- SUMMARY: The system call of tp5, which prints a string of its caller's choice, as one instruction of level 3.
import SecOS.Kernel.Debug
import SecOS.Kernel.Panic
import SecOS.Tp3.Fault

/-!
# System call

tp5 has level 3 of tp3, on a stack of its own, and opens gate 48 to it. `syscall_isr` hands
the registers to `syscall_handler`, which prints EAX and the string that ESI points to, wherever
that is.
-/

namespace SecOS

open X86

namespace Tp5

open Tp3 (Entered Installed Launched Opened Ring3 SameControl Segs StackTop NearTop
  enteredCpu entered userStep sizeofGdt sizeofIdt sizeofStack)

/-- What the compiler and the linker settle beyond what the labs have in common. -/
structure Image extends Tp3.Image where
  syscallIsr : Word
  /-- `vprint_buffer` -/
  vprintBuffer : Word
  /-- How far below the stack pointer of its caller `syscall_handler` pushes an argument. -/
  debugArg : Nat
  debugArg_ge : 4 ≤ debugArg
  debugArg_le : debugArg ≤ cDepth
  buffer_tabled : ∀ b, Within vprintBuffer sizeofVprintBuffer b → ¬ toImage.Tabled b
  buffer_stack : ∀ b, Within vprintBuffer sizeofVprintBuffer b → ¬ Within stack sizeofStack b

/-- The calls of `debug` in `syscall_handler`. -/
def Image.site (img : Image) : CallSite where
  vprintBuffer := img.vprintBuffer
  cDepth := img.cDepth
  debugArg := img.debugArg
  debugArg_ge := img.debugArg_ge
  debugArg_le := img.debugArg_le
  cDepth_le := Nat.le_trans (Nat.le_add_left _ _) img.depth_le

/-! ## tp -/

section Code

variable (img : Image)

def syscallVector : Nat := 48

def ustack : Word := 0x800000

def configSyscall (s : Flat) : Flat :=
  let dsc := descAddr s.idtr.base syscallVector
  { s with mem := s.mem.write64 dsc (patchGate img.syscallIsr (s.mem.read64 dsc)) }

def tp (σ : Scratch) (s : Flat) : Option Flat := do
  let s ← Tp3.initGdt img.toImage (Tp3.openFrame img.toImage σ s)
  Tp3.launch img.toImage (.at ustack) σ (configSyscall img s)

/-! ## syscall_isr -/

/-- What a system call meets: two calls of `debug`, and what the C code leaves behind. -/
structure Call where
  first : Wait
  second : Wait
  left : Scratch

/-- `syscall_handler`, with the stack pointer at its call. -/
def syscallHandler (c : Call) (ctx esp : Word) (m : Mem) : Option (Mem × List IoEvent) := do
  let (m, out) ← debug img.site "SYSCALL eax = %p\n" (IntCtx.load m ctx).gpr.eax esp c.first m
  let (m, out') ← debug img.site "print syscall: %s" (IntCtx.load m ctx).gpr.esi esp c.second m
  return (m.blit (esp - BitVec.ofNat 32 img.cDepth) img.cDepth c.left.stack, out ++ out')

/-- The compiler's prologue, `leave`, `pusha`, and the context pointer in EAX. -/
def isrPrologue : List Op := [.push .ebp, .mov .ebp .esp, .leave, .pusha, .mov .eax .esp]

/-- `int $48` and `syscall_isr`, back to the caller. -/
def syscall (c : Call) (s : Flat) : Option (Flat × List IoEvent) := do
  let s ← s.softInt 48 2
  if s.cpu.eip ≠ img.syscallIsr then none else
  let (cpu, mem) := evalOps isrPrologue s.cpu s.mem
  if !s.gdt.dataUsable cpu.ds then none else
  let (mem, out) ← syscallHandler img c cpu.eax cpu.esp mem
  let (cpu, mem) := evalOps [.popa]
    { cpu with
      eax := c.left.eax, ecx := c.left.ecx, edx := c.left.edx
      eflags := Eflags.blend cpu.eflags c.left.flags Eflags.status } mem
  let s ← Flat.iret { s with cpu, mem }
  return (s, out)

/-! ## Runs -/

structure Sys where
  machine : Flat
  io : List IoEvent

inductive Event where
  | instr (i : Tp3.UserInstr)
  | int48 (c : Call)

def step (s : Sys) : Event → Option Sys
  | .instr i => do
    let machine ← userStep s.machine i
    return { s with machine }
  | .int48 c => do
    let (machine, out) ← syscall img c s.machine
    return { machine, io := s.io ++ out }

end Code

/-! ## What level 3 sees -/

/-- The machine as level 3 sees it, and what has been printed. -/
structure View where
  cpu : Cpu
  mem : Mem
  sent : List Byte

def eaxText (eax : Word) : List Byte :=
  "SYSCALL eax = 0x".toList.map chr ++ numeralText 16 eax.toNat ++ [chr '\n']

/-- What the buffer does not hold is lost. -/
def esiText (s : List Byte) : List Byte := ("print syscall: ".toList.map chr ++ s).take 1023

def reply (eax : Word) (s : List Byte) : List Byte := eaxText eax ++ esiText s

/-- The system call is one instruction, which prints. -/
def View.after (v : View) : Event → View
  | .instr i =>
    { v with
      mem := Flat.storeAll v.mem i.stores
      cpu := { i.regs with
        eflags := Eflags.blend v.cpu.eflags i.regs.eflags Eflags.user, shadow := false
        cr0 := v.cpu.cr0, cr2 := v.cpu.cr2, cr3 := v.cpu.cr3, cr4 := v.cpu.cr4 } }
  | .int48 _ =>
    { v with
      cpu := { v.cpu with eip := v.cpu.eip + 2, shadow := false }
      sent := v.sent ++ reply v.cpu.eax (cString v.mem v.cpu.esi) }

/-! ## The gate -/

variable {img : Image} {σ : Scratch} {s t s₀ s₁ : Flat} {top b : Word} {m m' : Mem} {c : Call}
variable {out : List IoEvent} {esp : Word}

/-- The gates that `config_syscall` leaves. -/
def gates (img : Image) : List Desc :=
  (intrInit img.idtTrampoline).modify syscallVector (patchGate img.syscallIsr)

theorem gate_syscall (img : Image) :
    ∃ g, (gates img)[syscallVector]? = some g ∧ GateTo g img.syscallIsr 3 := by
  have hinit := getElem?_intrInit img.idtTrampoline (i := syscallVector) (by decide)
  rw [gates, List.getElem?_modify_eq, hinit]
  exact ⟨_, rfl, (GateTo.buildIntDesc _).patchGate img.syscallIsr⟩

theorem getElem?_idt_syscall (hidtr : s.idtr = img.idtr) :
    s.idt[syscallVector]? = some (s.mem.read64 (descAddr img.idt syscallVector)) := by
  have hlimit := Tp3.limit_idtr img.toImage
  have hget := getElem?_table (r := img.idtr) s.mem (i := syscallVector) (by
    rw [syscallVector]
    omega)
  have hbase : img.idtr.base = img.idt := rfl
  rw [Flat.idt, hidtr, hget, hbase]

theorem within_idt_syscall (h : Within (descAddr img.idt syscallVector) 8 b) :
    Within img.idt sizeofIdt b :=
  within_of_descAddr (n := 256) (by decide) (by decide) h

theorem splitFormat_eax :
    splitFormat ("SYSCALL eax = %p\n".toList.map chr)
      = some (("SYSCALL eax = ".toList.map chr).map .literal
          ++ [.conversion [] .p, .literal (chr '\n')], none) := by
  decide +kernel

theorem splitFormat_esi :
    splitFormat ("print syscall: %s".toList.map chr)
      = some (("print syscall: ".toList.map chr).map .literal ++ [.conversion [] .s], none) := by
  decide +kernel

theorem eaxText_eq (eax : Word) :
    eaxText eax = "SYSCALL eax = ".toList.map chr
      ++ ([chr '0', chr 'x'] ++ numeralText 16 eax.toNat ++ [chr '\n']) := by
  have hhead : "SYSCALL eax = 0x".toList.map chr
      = "SYSCALL eax = ".toList.map chr ++ [chr '0', chr 'x'] := by decide +kernel
  unfold eaxText
  simp only [hhead, List.append_assoc]

theorem length_eaxText_le (eax : Word) : (eaxText eax).length ≤ 1023 := by
  have hnum := length_numeralText_le (b := 16) (n := eax.toNat) (k := 8) (by decide) (by decide)
    eax.isLt
  have hhead : ("SYSCALL eax = ".toList.map chr).length = 14 := by decide +kernel
  simp only [eaxText_eq, List.length_append, hhead, List.length_cons, List.length_nil]
  omega

theorem take_eax (p eax : Word) (hp : m.read32 p = eax) :
    (renderAll m p (("SYSCALL eax = ".toList.map chr).map .literal
        ++ [.conversion [] .p, .literal (chr '\n')])).take 1023 = eaxText eax := by
  have htext : renderAll m p (("SYSCALL eax = ".toList.map chr).map .literal
      ++ [.conversion [] .p, .literal (chr '\n')]) = eaxText eax := by
    simp only [renderAll_literals, renderAll, Directive.render, Conv.render, vaArg32, hp,
      eaxText_eq, List.append_nil]
  rw [htext, List.take_of_length_le (length_eaxText_le eax)]

theorem take_esi (p esi : Word) (hp : m.read32 p = esi) :
    (renderAll m p (("print syscall: ".toList.map chr).map .literal
      ++ [.conversion [] .s])).take 1023 = esiText (cString m esi) := by
  rw [renderAll_literals, esiText]
  simp only [renderAll, Directive.render, Conv.render, vaArg32, hp, List.append_nil]

theorem load_esi (m : Mem) (a : Word) : (IntCtx.load m a).gpr.esi = m.read32 (a + 4) := rfl

theorem syscallHandler_frame {ctx : Word} (h : syscallHandler img c ctx esp m = some (m', out))
    (hb : Untouched img.site esp b) : m' b = m b := by
  simp only [syscallHandler, Option.bind_eq_bind, Option.bind_eq_some_iff] at h
  obtain ⟨⟨m₁, out₁⟩, hfirst, ⟨m₂, out₂⟩, hsecond, h⟩ := h
  obtain ⟨rfl, -⟩ := Prod.mk.inj (Option.some.inj h)
  obtain ⟨-, -, hframe₁⟩ := debug_of_eq_some splitFormat_eax hfirst
  obtain ⟨-, -, hframe₂⟩ := debug_of_eq_some splitFormat_esi hsecond
  exact (Mem.blit_not_within hb.1).trans ((hframe₂ b hb).trans (hframe₁ b hb))

/-- What the handler has printed when it comes back: the context lies above its stack, and the
string neither there nor in the buffer. -/
theorem syscallHandler_of_eq_some {esi : Word}
    (h : syscallHandler img c esp esp m = some (m', out)) (hesi : (IntCtx.load m esp).gpr.esi = esi)
    (hword : ∀ b, Within (esp + 4) 4 b → Untouched img.site esp b)
    (hstr : ∀ i ≤ (cString m esi).length, Untouched img.site esp (esi + BitVec.ofNat 32 i)) :
    written (serialTx serialCom1) out = reply (IntCtx.load m esp).gpr.eax (cString m esi) ∧
      Polled serialCom1 out := by
  simp only [syscallHandler, Option.bind_eq_bind, Option.bind_eq_some_iff] at h
  obtain ⟨⟨m₁, out₁⟩, hfirst, ⟨m₂, out₂⟩, hsecond, h⟩ := h
  obtain ⟨-, rfl⟩ := Prod.mk.inj (Option.some.inj h)
  dsimp only at hsecond ⊢
  obtain ⟨hbytes₁, hpolled₁, hframe₁⟩ := debug_of_eq_some splitFormat_eax hfirst
  have hesi₁ : (IntCtx.load m₁ esp).gpr.esi = esi := by
    rw [← hesi, load_esi, load_esi]
    exact Mem.read32_congr fun b hb => hframe₁ b (hword b hb)
  rw [hesi₁] at hsecond
  obtain ⟨hbytes₂, hpolled₂, -⟩ := debug_of_eq_some splitFormat_esi hsecond
  have hstring : cString (debugMem img.site esp esi c.second m₁) esi = cString m esi :=
    cString_congr fun i hi =>
      (debugMem_not_within (hstr i hi).1).trans (hframe₁ _ (hstr i hi))
  rw [take_eax _ _ (read32_debugMem ..)] at hbytes₁
  rw [take_esi _ _ (read32_debugMem ..), hstring] at hbytes₂
  refine ⟨?_, Polled.append hpolled₁ hpolled₂⟩
  rw [written_append, hbytes₁, hbytes₂, reply]

/-- Where `int $48` returns to. -/
def called (s : Flat) : Flat := { s with cpu := { s.cpu with eip := s.cpu.eip + 2 } }

/-- The frame of the processor and the registers, in the order they are pushed. -/
def isrPushed (c : Cpu) (top : Word) : List Word :=
  c.trapFrame none ++ { c with esp := Mem.below top 5 }.gprs

theorem called_ring3 {gates : List Desc} (h : Ring3 img.toImage gates top s) :
    Ring3 img.toImage gates top (called s) :=
  ⟨h.installed.congr rfl rfl rfl fun _ _ => rfl, h.cs, h.ss, h.flags⟩

/-- `int $48` leads to where gate 48 leads, which level 3 may call. -/
theorem softInt_eq {gates : List Desc} {g : Desc} {a : Word} (h : Ring3 img.toImage gates top s)
    (hg : gates[syscallVector]? = some g) (hgate : GateTo g a 3) :
    s.softInt 48 2 = some (entered (called s) top a none) := by
  have hidt : s.idt[syscallVector]? = some g := by rw [h.installed.idt, hg]
  have hlevel : ¬ g.dpl.ult s.cpu.cpl = true := by
    rw [hgate.dpl, h.cpl]
    decide
  exact (Flat.softInt_eq hidt hlevel).trans ((called_ring3 h).interrupt_eq none hg hgate)

theorem isrPushed_eq (hcpl : s.cpu.cpl ≠ 0) :
    isrPushed (called s).cpu top = [s.cpu.ss.setWidth 32, s.cpu.esp, s.cpu.eflags,
      s.cpu.cs.setWidth 32, s.cpu.eip + 2, s.cpu.eax, s.cpu.ecx, s.cpu.edx, s.cpu.ebx,
      Mem.below top 5, s.cpu.ebp, s.cpu.esi, s.cpu.edi] := by
  have hcalled : (called s).cpu.cpl ≠ 0 := hcpl
  rw [isrPushed, Cpu.trapFrame, if_neg hcalled]
  rfl

/-- `leave` undoes the prologue, so `pusha` stores the registers at the interrupt. -/
theorem evalOps_isrPrologue (cpu : Cpu) (m : Mem) :
    evalOps isrPrologue cpu m
      = ({ cpu with eax := Mem.below cpu.esp 8, esp := Mem.below cpu.esp 8, shadow := false },
          m.pushWords cpu.esp cpu.gprs) := by
  simp only [isrPrologue, evalOps_cons, evalOps_nil, Op.eval, Cpu.get, Cpu.set, Cpu.gprs,
    Mem.read32_write32, BitVec.sub_add_cancel, Mem.pushWords_write32]

/-- The machine at the call of the handler. -/
def atHandler (s : Flat) (top a : Word) : Flat :=
  { s with
    cpu := { enteredCpu (called s).cpu top a none with
      eax := Mem.below top 13, esp := Mem.below top 13 }
    mem := s.mem.pushWords top (isrPushed (called s).cpu top) }

theorem evalOps_entered (hcpl : s.cpu.cpl ≠ 0) (a : Word) :
    evalOps isrPrologue (entered (called s) top a none).cpu (entered (called s) top a none).mem
      = ((atHandler s top a).cpu, (atHandler s top a).mem) := by
  have hcalled : (called s).cpu.cpl ≠ 0 := hcpl
  have hlen : ((called s).cpu.trapFrame none).length = 5 := by
    rw [Cpu.trapFrame, if_neg hcalled]
    rfl
  rw [evalOps_isrPrologue]
  simp only [entered, enteredCpu, atHandler, isrPushed, hlen, Mem.below_below,
    Mem.pushWords_append, Cpu.gprs]
  rfl

/-- The frame and the registers, read from the stack pointer up. -/
theorem readWords_atHandler (hcpl : s.cpu.cpl ≠ 0) (a : Word) :
    (atHandler s top a).mem.readWords (Mem.below top 13) 13
      = [s.cpu.edi, s.cpu.esi, s.cpu.ebp, Mem.below top 5, s.cpu.ebx, s.cpu.edx, s.cpu.ecx,
          s.cpu.eax, s.cpu.eip + 2, s.cpu.cs.setWidth 32, s.cpu.eflags, s.cpu.esp,
          s.cpu.ss.setWidth 32] := by
  have hlen : (isrPushed (called s).cpu top).length = 13 := by rw [isrPushed_eq hcpl]; rfl
  have hread := Mem.readWords_pushWords s.mem top (isrPushed (called s).cpu top)
    (by rw [hlen]; decide)
  rw [hlen] at hread
  refine hread.trans ?_
  rw [isrPushed_eq hcpl]
  rfl

theorem load_atHandler (hcpl : s.cpu.cpl ≠ 0) (top a : Word) :
    (IntCtx.load (atHandler s top a).mem (Mem.below top 13)).gpr.eax = s.cpu.eax ∧
      (IntCtx.load (atHandler s top a).mem (Mem.below top 13)).gpr.esi = s.cpu.esi := by
  rw [IntCtx.load, show intCtxWords = 13 + 2 from rfl, Mem.readWords_append,
    readWords_atHandler hcpl]
  exact ⟨rfl, rfl⟩

theorem atHandler_not_near {a : Word} (h : ¬ NearTop top b) :
    (atHandler s top a).mem b = s.mem b := by
  have hlen : (isrPushed (called s).cpu top).length ≤ 14 := by
    have htrap := Machine.length_trapFrame_le (called s).cpu none
    rw [isrPushed, List.length_append, Cpu.gprs]
    simp only [List.length_cons, List.length_nil]
    omega
  refine Mem.pushWords_not_within ?_ (by omega)
  simp only [NearTop, Within, Mem.below] at *
  bv_omega

/-- What the handler leaves alone that lies on the stack or in the tables. -/
theorem untouched_of_within (hstack : StackTop img.toImage top)
    (h : Within (Mem.below top 13) 52 b) : Untouched img.site (Mem.below top 13) b := by
  have hdepth := img.site.cDepth_le
  refine ⟨?_, fun hbuffer => img.buffer_stack b hbuffer ?_⟩
  · simp only [Within, Mem.below] at *
    bv_omega
  · simp only [StackTop, Within, Mem.below, sizeofStack] at *
    bv_omega

theorem untouched_of_tabled (hstack : StackTop img.toImage top) (h : img.Tabled b) :
    Untouched img.site (Mem.below top 13) b := by
  have hdepth := img.site.cDepth_le
  refine ⟨fun hnear => hstack.not_tabled ?_ h, fun hbuffer => img.buffer_tabled b hbuffer h⟩
  simp only [NearTop, Within, Mem.below] at *
  bv_omega

/-- The machine when the call is over. -/
def returned (s : Flat) (m : Mem) : Flat :=
  { s with cpu := { s.cpu with eip := s.cpu.eip + 2, shadow := false }, mem := m }

/-- The registers when the handler is over. -/
def leftCpu (c : Call) (cpu : Cpu) : Cpu :=
  { cpu with
    eax := c.left.eax, ecx := c.left.ecx, edx := c.left.edx
    eflags := Eflags.blend cpu.eflags c.left.flags Eflags.status }

theorem flags_atHandler (c : Call) (a : Word) :
    (leftCpu c (atHandler s top a).cpu).eflags &&& Eflags.nt = 0 :=
  (Eflags.blend_and _ _ (by decide)).trans (Eflags.and_not_and _ (by decide))

/-- `popa` and `iret` bring back what was interrupted. -/
theorem iret_returned (h : Ring3 img.toImage (gates img) top s) (hsegs : Segs img.tss s.cpu)
    (a : Word) (hgdt : s.gdtr.table m' = examGdt img.tss)
    (hread : m'.readWords (Mem.below top 13) 13
      = (atHandler s top a).mem.readWords (Mem.below top 13) 13) :
    Flat.iret { s with
        cpu := (evalOps [.popa] (leftCpu c (atHandler s top a).cpu) m').1, mem := m' }
      = some (returned s m') := by
  have hcpl : s.cpu.cpl ≠ 0 := by rw [h.cpl]; decide
  rw [readWords_atHandler hcpl] at hread
  have hregs := Mem.readWords_take m' (Mem.below top 13) (j := 8) (n := 13) (by decide)
  have hframe := Mem.readWords_slice m' (Mem.below top 13) (k := 8) (j := 5) (n := 13) (by decide)
  rw [hread] at hregs hframe
  have haddr : Mem.below top 13 + BitVec.ofNat 32 (4 * 8) = Mem.below top 13 + 32 := rfl
  rw [haddr] at hframe
  have hpopa := Cpu.popa_eq (c := { leftCpu c (atHandler s top a).cpu with shadow := false }) hregs
  have hsel (x : Sel) : ((x.setWidth 32 : Word).setWidth 16 : Sel) = x := by simp
  have hiret := Cpu.iret_outer (g := examGdt img.tss) (c := { leftCpu c (atHandler s top a).cpu with
      eax := s.cpu.eax, ecx := s.cpu.ecx, edx := s.cpu.edx, ebx := s.cpu.ebx, ebp := s.cpu.ebp
      esi := s.cpu.esi, edi := s.cpu.edi, esp := Mem.below top 13 + 32, shadow := false }) hframe
    (flags_atHandler c a) h.vm (by rw [hsel, h.cs]; rfl) (by rw [hsel, h.cs, codeOk_c3Sel])
    (by rw [hsel, h.ss, stackOk_d3Sel])
  rw [evalOps_cons, evalOps_nil, Op.eval, Flat.iret, Flat.gdt]
  simp only [hpopa, hgdt]
  refine Option.bind_eq_some_iff.mpr ⟨_, hiret, ?_⟩
  simp only [hsel, outerData_of_dataOk hsegs.ds, outerData_of_dataOk hsegs.es,
    outerData_of_dataOk hsegs.fs, outerData_of_dataOk hsegs.gs, leftCpu, atHandler, enteredCpu,
    called]
  rfl

/-- The whole system call: what it does is up to the handler. -/
theorem syscall_eq (h : Ring3 img.toImage (gates img) top s) (hstack : StackTop img.toImage top)
    (hsegs : Segs img.tss s.cpu) (c : Call) :
    syscall img c s
      = if (examGdt img.tss).dataUsable s.cpu.ds then
          (syscallHandler img c (Mem.below top 13) (Mem.below top 13)
            (atHandler s top img.syscallIsr).mem).map fun r => (returned s r.1, r.2)
        else none := by
  have hcpl : s.cpu.cpl ≠ 0 := by rw [h.cpl]; decide
  obtain ⟨g, hg, hgate⟩ := gate_syscall img
  have hinst := (called_ring3 h).entered hstack img.syscallIsr none
  have heip : ¬ (entered (called s) top img.syscallIsr none).cpu.eip ≠ img.syscallIsr :=
    not_not_intro rfl
  have hdata : (atHandler s top img.syscallIsr).cpu.ds = s.cpu.ds := rfl
  unfold syscall
  simp only [softInt_eq h hg hgate, Option.bind_eq_bind, Option.bind_some, if_neg heip,
    evalOps_entered hcpl, hinst.gdt, hdata]
  cases (examGdt img.tss).dataUsable s.cpu.ds with
  | false => rfl
  | true =>
    simp only [Bool.not_true, Bool.false_eq_true, if_false, if_true]
    change (syscallHandler img c (Mem.below top 13) (Mem.below top 13)
      (atHandler s top img.syscallIsr).mem).bind _ = _
    cases hhandler : syscallHandler img c (Mem.below top 13) (Mem.below top 13)
      (atHandler s top img.syscallIsr).mem with
    | none => rfl
    | some r =>
      obtain ⟨m', out⟩ := r
      have hframe {b : Word} (hb : Untouched img.site (Mem.below top 13) b) :
          m' b = (atHandler s top img.syscallIsr).mem b := syscallHandler_frame hhandler hb
      have hread : m'.readWords (Mem.below top 13) 13
          = (atHandler s top img.syscallIsr).mem.readWords (Mem.below top 13) 13 :=
        Mem.readWords_congr (by decide) fun b hb => hframe (untouched_of_within hstack hb)
      have hgdt : s.gdtr.table m' = examGdt img.tss :=
        Installed.gdt (s := { s with mem := m' }) <| h.installed.congr rfl rfl rfl fun b hb =>
          (hframe (untouched_of_tabled hstack hb)).trans
            (atHandler_not_near fun hnear => hstack.not_tabled hnear hb)
      have hiret := iret_returned (c := c) h hsegs img.syscallIsr hgdt hread
      exact Option.bind_eq_some_iff.mpr ⟨_, rfl, Option.bind_eq_some_iff.mpr ⟨_, hiret, rfl⟩⟩

/-! ## Runs of level 3 -/

/-- The bytes that a system call may change. -/
def Scratched (img : Image) (top b : Word) : Prop :=
  NearTop top b ∨ Within img.vprintBuffer sizeofVprintBuffer b

/-- The string at `a` lies apart from them. -/
def Apart (img : Image) (top : Word) (m : Mem) (a : Word) : Prop :=
  ∀ i ≤ (cString m a).length, ¬ Scratched img top (a + BitVec.ofNat 32 i)

theorem untouched_of_not_scratched (h : ¬ Scratched img top b) :
    Untouched img.site (Mem.below top 13) b := by
  have hdepth := img.site.cDepth_le
  obtain ⟨hnear, hbuffer⟩ := not_or.mp h
  refine ⟨fun hb => hnear ?_, hbuffer⟩
  simp only [NearTop, Within, Mem.below] at *
  bv_omega

/-- What level 3 may do: spare the kernel, and print what the call does not overwrite. -/
def Event.Ok (img : Image) (top : Word) (s : Sys) : Event → Prop
  | .instr i => i.Spares img.toImage
  | .int48 _ => Apart img top s.machine.mem s.machine.cpu.esi

/-- Every event of a run is one of these where it comes. -/
def Permitted (img : Image) (top : Word) (s₁ : Flat) (es : List Event) : Prop :=
  ∀ pre e post y, es = pre ++ e :: post → Lts.run (step img) ⟨s₁, []⟩ pre = some y →
    Event.Ok img top y e

/-- The machine `s` looks like `v`. -/
structure Shows (img : Image) (top : Word) (s₁ : Flat) (s : Sys) (v : View) : Prop where
  ring3 : Ring3 img.toImage (gates img) top s.machine
  segs : Segs img.tss s.machine.cpu
  control : SameControl s₁ s.machine
  cpu : v.cpu = s.machine.cpu
  mem : ∀ b, ¬ Scratched img top b → v.mem b = s.machine.mem b
  sent : v.sent = written (serialTx serialCom1) s.io
  polled : Polled serialCom1 s.io

variable {x x' : Sys} {v : View} {e : Event} {es : List Event}

theorem Shows.instr {i : Tp3.UserInstr} (h : Shows img top s₁ x v) (hspare : i.Spares img.toImage)
    (hstep : step img x (.instr i) = some x') : Shows img top s₁ x' (v.after (.instr i)) := by
  obtain ⟨t, ht, hx⟩ := Option.bind_eq_some_iff.mp hstep
  obtain rfl := Option.some.inj hx
  obtain ⟨-, -, rfl⟩ := Tp3.user_eq ht
  exact {
    ring3 := h.ring3.user hspare ht
    segs := Tp3.segs_user h.ring3.installed.gdt ht
    control := h.control.trans (Tp3.sameControl_user ht)
    cpu := by simp only [View.after, h.cpu]
    mem := fun b hb => Flat.storeAll_congr i.stores (h.mem b hb)
    sent := h.sent
    polled := h.polled }

theorem Shows.int48 (h : Shows img top s₁ x v) (hstack : StackTop img.toImage top)
    (hapart : Apart img top x.machine.mem x.machine.cpu.esi)
    (hstep : step img x (.int48 c) = some x') : Shows img top s₁ x' (v.after (.int48 c)) := by
  have hcpl : x.machine.cpu.cpl ≠ 0 := by rw [h.ring3.cpl]; decide
  obtain ⟨⟨t, out⟩, ht, hx⟩ := Option.bind_eq_some_iff.mp hstep
  obtain rfl := Option.some.inj hx
  rw [syscall_eq h.ring3 hstack h.segs] at ht
  split at ht
  · obtain ⟨⟨m', out'⟩, hhandler, hr⟩ := Option.map_eq_some_iff.mp ht
    obtain ⟨rfl, rfl⟩ := Prod.mk.inj hr
    have hload := load_atHandler hcpl top img.syscallIsr
    have hnear (i : Nat) (hi : i ≤ (cString x.machine.mem x.machine.cpu.esi).length) :
        (atHandler x.machine top img.syscallIsr).mem (x.machine.cpu.esi + BitVec.ofNat 32 i)
          = x.machine.mem (x.machine.cpu.esi + BitVec.ofNat 32 i) :=
      atHandler_not_near (not_or.mp (hapart i hi)).1
    have hstring := cString_congr hnear
    have hsame : cString v.mem x.machine.cpu.esi = cString x.machine.mem x.machine.cpu.esi :=
      cString_congr fun i hi => h.mem _ (hapart i hi)
    obtain ⟨hbytes, hpolled⟩ := syscallHandler_of_eq_some hhandler hload.2
      (fun b hb => untouched_of_within hstack (by simp only [Within] at *; bv_omega))
      (fun i hi => untouched_of_not_scratched (hapart i (hstring ▸ hi)))
    rw [hload.1, hstring] at hbytes
    have hframe {b : Word} (hb : Untouched img.site (Mem.below top 13) b)
        (hnear : ¬ NearTop top b) : m' b = x.machine.mem b :=
      (syscallHandler_frame hhandler hb).trans (atHandler_not_near hnear)
    have hinst : Installed img.toImage (gates img) top (returned x.machine m') :=
      h.ring3.installed.congr rfl rfl rfl fun b hb =>
        hframe (untouched_of_tabled hstack hb) fun hnear => hstack.not_tabled hnear hb
    exact {
      ring3 := ⟨hinst, h.ring3.cs, h.ring3.ss, h.ring3.flags⟩
      segs := ⟨h.segs.ds, h.segs.es, h.segs.fs, h.segs.gs⟩
      control := ⟨h.control.cr0, h.control.cr3, h.control.cr4⟩
      cpu := by simp only [View.after, h.cpu, returned]
      mem := fun b hb =>
        (h.mem b hb).trans (hframe (untouched_of_not_scratched hb) (not_or.mp hb).1).symm
      sent := by
        simp only [View.after, h.cpu, hsame, h.sent, written_append, hbytes]
      polled := h.polled.append hpolled }
  · cases ht

theorem Shows.step (h : Shows img top s₁ x v) (hstack : StackTop img.toImage top)
    (hok : e.Ok img top x) (hstep : step img x e = some x') : Shows img top s₁ x' (v.after e) := by
  cases e with
  | instr i => exact h.instr hok hstep
  | int48 c => exact h.int48 hstack hok hstep

/-- The machine when `userland` begins, before anything is printed. -/
def View.start (s : Flat) : View := ⟨s.cpu, s.mem, []⟩

/-- The objects of the other labs, and the buffer behind them. -/
def sampleImage : Image where
  toImage := Tp3.sampleImage
  syscallIsr := 0x302400
  vprintBuffer := 0x30b000
  debugArg := 0x40
  debugArg_ge := by decide
  debugArg_le := by decide
  buffer_tabled _ h := not_or.mpr
    ⟨h.not_within (by decide) (by decide), not_or.mpr
      ⟨h.not_within (by decide) (by decide), h.not_within (by decide) (by decide)⟩⟩
  buffer_stack _ h := h.not_within (by decide) (by decide)

def sampleCall : Call := ⟨sampleWait, sampleWait, Tp3.sampleScratch⟩

/-- `push $0x6968`, the characters of a string. -/
def pushHi (cpu : Cpu) : Tp3.UserInstr where
  regs := { cpu with esp := cpu.esp - 4, eip := cpu.eip + 5 }
  stores := Flat.wordStores (cpu.esp - 4) 0x6968

/-- `mov %esp, %esi` -/
def movEsiEsp (cpu : Cpu) : Tp3.UserInstr where
  regs := { cpu with esi := cpu.esp, eip := cpu.eip + 2 }
  stores := []

/-- A program that pushes a string and prints it. -/
def sampleEvents (s : Flat) : List Event :=
  [.instr (pushHi s.cpu), .instr (movEsiEsp (pushHi s.cpu).regs), .int48 sampleCall]

/-- The machine at its system call. -/
def sampleMachine (s : Flat) : Flat :=
  { s with
    mem := Flat.storeAll s.mem (pushHi s.cpu).stores
    cpu := { (movEsiEsp (pushHi s.cpu).regs).regs with shadow := false } }

/-- `movl $w, a` -/
def storeWord (cpu : Cpu) (a w : Word) : Tp3.UserInstr where
  regs := { cpu with eip := cpu.eip + 10 }
  stores := Flat.wordStores a w

/-- The gate of the system call, leading to `a`. -/
def takenGate (img : Image) (s : Flat) (a : Word) : Desc :=
  patchGate a (s.mem.read64 (descAddr img.idt syscallVector))

/-- Two stores of level 3 to the table of gates. -/
def takeGate (img : Image) (s : Flat) (a : Word) : List Tp3.UserInstr :=
  let dsc := descAddr img.idt syscallVector
  let first := storeWord s.cpu dsc (field (takenGate img s a) 0 32)
  [first, storeWord first.regs (dsc + 4) (field (takenGate img s a) 32 32)]

def takenMachine (img : Image) (s : Flat) (a : Word) : Flat :=
  { s with
    mem := s.mem.write64 (descAddr img.idt syscallVector) (takenGate img s a)
    cpu := { s.cpu with eip := s.cpu.eip + 10 + 10, shadow := false } }

/-- Stores to the gates leave level 3 what it was, with other gates. -/
theorem ring3_of_idt {gates gates' : List Desc} (h : Ring3 img.toImage gates top s)
    (hcpu : t.cpu.cs = s.cpu.cs ∧ t.cpu.ss = s.cpu.ss ∧ t.cpu.eflags = s.cpu.eflags)
    (hregs : t.gdtr = s.gdtr ∧ t.idtr = s.idtr ∧ t.tr = s.tr)
    (hmem : ∀ b, ¬ Within img.idt sizeofIdt b → t.mem b = s.mem b) (hidt : t.idt = gates') :
    Ring3 img.toImage gates' top t := by
  obtain ⟨hgdtr, hidtr, htr⟩ := hregs
  have hinst : Installed img.toImage gates' top t := {
    gdtr := hgdtr.trans h.installed.gdtr
    gdt := by
      rw [← h.installed.gdt, Flat.gdt, Flat.gdt, hgdtr, h.installed.gdtr]
      exact Tp3.gdt_congr fun b hb => hmem b (img.gdt_idt b hb)
    idtr := hidtr.trans h.installed.idtr
    idt := hidt
    tr := htr.trans h.installed.tr
    esp0 := by
      rw [← h.installed.esp0, Flat.esp0, Flat.esp0, htr, h.installed.tr]
      exact Mem.read32_congr fun b hb => hmem b fun hin =>
        img.idt_tss b hin (Tp3.within_tss_esp hb)
    ss0 := by
      rw [← h.installed.ss0, Flat.ss0, Flat.ss0, htr, h.installed.tr]
      exact Mem.read16_congr fun b hb => hmem b fun hin =>
        img.idt_tss b hin (Tp3.within_tss_ss hb) }
  exact ⟨hinst, hcpu.1.trans h.cs, hcpu.2.1.trans h.ss, hcpu.2.2 ▸ h.flags⟩

theorem idt_takenMachine (hidtr : s.idtr = img.idtr) (a : Word) :
    (takenMachine img s a).idt = s.idt.set syscallVector (takenGate img s a) := by
  have hbase : s.idtr.base = img.idt := congrArg TableReg.base hidtr
  have htable := table_write64 (r := s.idtr) (m := s.mem) (i := syscallVector)
    (d := takenGate img s a) (by decide)
  rw [hbase] at htable
  exact htable

/-- Two stores are all that level 3 needs to run what it likes at level 0. -/
theorem taken (h : Ring3 img.toImage (gates img) top s) (hsegs : Segs img.tss s.cpu) (a : Word) :
    ∃ t u, Lts.run userStep s (takeGate img s a) = some t ∧ t.softInt 48 2 = some u ∧
      u.cpu.cpl = 0 ∧ u.cpu.eip = a := by
  let dsc := descAddr img.idt syscallVector
  let first := storeWord s.cpu dsc (field (takenGate img s a) 0 32)
  let second := storeWord first.regs (dsc + 4) (field (takenGate img s a) 32 32)
  have hin {b : Word} (hb : Within dsc 4 b ∨ Within (dsc + 4) 4 b) :
      Within img.idt sizeofIdt b := by
    refine within_idt_syscall ?_
    simp only [Within, dsc] at *
    bv_omega
  have hfirst := h.userStep_eq hsegs (i := first) rfl
  have hring := ring3_of_idt (t := { s with
      mem := Flat.storeAll s.mem first.stores, cpu := { first.regs with shadow := false } }) h
    ⟨rfl, rfl, rfl⟩ ⟨rfl, rfl, rfl⟩ (fun b hb => Flat.storeAll_of_forall_ne fun w hw hne =>
      hb (hin (.inl (hne ▸ Flat.within_of_mem_wordStores hw)))) rfl
  have hsecond := hring.userStep_eq (Tp3.segs_user h.installed.gdt hfirst) (i := second) rfl
  have hmem : Flat.storeAll (Flat.storeAll s.mem first.stores) second.stores
      = (takenMachine img s a).mem := by
    simp only [first, second, storeWord, Flat.storeAll_wordStores, takenMachine, Mem.write64, dsc]
  have htaken : Lts.run userStep s (takeGate img s a) = some (takenMachine img s a) := by
    refine Lts.run_cons.mpr ⟨_, hfirst, Lts.run_cons.mpr ⟨_, hsecond, Lts.run_nil.mpr ?_⟩⟩
    simp only [hmem]
    rfl
  obtain ⟨g, hg, hgate⟩ := gate_syscall img
  have hread : s.mem.read64 dsc = g := by
    have hget := getElem?_idt_syscall h.installed.idtr
    rw [h.installed.idt, hg] at hget
    exact (Option.some.inj hget).symm
  have hgate' : GateTo (takenGate img s a) a 3 := by
    rw [takenGate, hread]
    exact hgate.patchGate a
  have hring₂ := ring3_of_idt (t := takenMachine img s a) h ⟨rfl, rfl, rfl⟩ ⟨rfl, rfl, rfl⟩
    (fun b hb => Mem.write64_not_within fun hdsc => hb (within_idt_syscall hdsc))
    (idt_takenMachine h.installed.idtr a)
  have hget : (s.idt.set syscallVector (takenGate img s a))[syscallVector]?
      = some (takenGate img s a) := by
    rw [← h.installed.idt] at hg
    exact List.getElem?_set_self (List.getElem?_eq_some_iff.mp hg).1
  exact ⟨_, _, htaken, softInt_eq hring₂ hget hgate', cpl_c0Sel, rfl⟩

end Tp5

end SecOS
