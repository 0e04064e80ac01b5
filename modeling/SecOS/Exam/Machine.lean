-- SUMMARY: The machine the exam kernel runs on: its state, the C handlers as functions on it, instruction execution in the kernel, and the events of a run.
import SecOS.Exam.Text
import SecOS.Kernel.Intr
import SecOS.X86.Paging

/-!
# Machine

The state is the processor, physical memory, the interrupt controllers, and the C
objects of the kernel, which are kept beside memory: descriptor tables, task state
segment, `current_task_idx` and `tasks[]`. Kernel addresses below `0x400000` stand
for themselves; that the stack is mapped so is checked whenever the stack or the
page directory changes. Whatever the processor would answer with a fault inside the
kernel has no successor, and neither has `panic`.
-/

namespace SecOS

open X86

/-! ## State -/

/-- `struct task` -/
structure Task where
  function : Word
  stack : Word
  interruptStack : Word
  pgd : Word
  context : IntCtx
  contextSaved : BitVec 8

/-- Who wrote to a port. -/
inductive Writer where
  | idt
  | clockInterruptHandler
  | syscallHandler
  | ring3
  deriving DecidableEq

structure PortWrite where
  writer : Writer
  port : BitVec 16
  value : Byte
  deriving DecidableEq

structure Machine where
  cpu : Cpu
  mem : Mem
  pics : Pics
  gdt : Gdt
  idt : List Desc
  tss : Tss
  currentTaskIdx : Word
  tasks : Fin 2 → Task
  /-- What `debug` was asked to print. -/
  console : List Line
  /-- The writes to ports, the console's own apart. -/
  ports : List PortWrite

/-- What compiled C code leaves behind where nobody promises anything: registers it
need not preserve, status flags, and the stack below its caller's. -/
structure Scratch where
  eax : Word
  ecx : Word
  edx : Word
  ebx : Word
  ebp : Word
  esi : Word
  edi : Word
  flags : Word
  stack : Nat → Byte

/-- An index into `tasks[]`; there is nothing to say about one out of bounds. -/
def taskAt (i : Word) : Option (Fin 2) :=
  if h : i.toNat < 2 then some ⟨i.toNat, h⟩ else none

namespace Machine

/-- A kernel address that the directory maps to itself. -/
def mapped (m : Mem) (dir va : Word) : Bool :=
  match walk m dir va with
  | some t => t.pa == va
  | none => false

/-- The page of the kernel stack and its neighbours in use are mapped. -/
def stackMapped (s : Machine) : Bool :=
  mapped s.mem s.cpu.cr3 (s.cpu.esp - 4032) && mapped s.mem s.cpu.cr3 (s.cpu.esp + 63)

/-! ## What the C handlers use -/

def debug (s : Machine) (format : String) (args : List Arg) : Machine :=
  { s with console := s.console ++ [⟨format, args⟩] }

def outb (s : Machine) (writer : Writer) (value : Byte) (port : BitVec 16) : Machine :=
  { s with pics := s.pics.out port value, ports := s.ports ++ [⟨writer, port, value⟩] }

/-- `set_ds`, `set_es`, `set_fs` and `set_gs` with one selector. -/
def setDataSegs (s : Machine) (sel : Sel) : Option Machine :=
  if s.gdt.dataOk 0 sel then
    some { s with cpu := { s.cpu with ds := sel, es := sel, fs := sel, gs := sel } }
  else none

def setCr3 (s : Machine) (dir : Word) : Option Machine :=
  let s := { s with cpu := { s.cpu with cr3 := dir } }
  if s.stackMapped then some s else none

/-! ## Handlers of the exam -/

def syscallHandler (s : Machine) (ctx : Word) : Option Machine := do
  let eax := (IntCtx.load s.mem ctx).gpr.eax
  let counter := eax
  let value ← readLinear s.mem s.cpu.cr3 counter
  let s := s.debug "Counter value: %u\n" [.word value]
  return s.outb .syscallHandler 0x80 0x80

/-- How `clock_interrupt_handler` ends: it returns, or it goes into the statements
that start a task. -/
inductive ClockExit where
  | ret
  | launch (stack function : Word)

/-- Copy the interrupted context into the running task, unless the kernel was
interrupted. `memcpy` stores through ES. -/
def saveContext (s : Machine) (ctx : Word) : Option Machine :=
  if s.currentTaskIdx ≠ -1 then do
    if !s.gdt.dataUsable s.cpu.es then none else
    let i ← taskAt s.currentTaskIdx
    let task := { s.tasks i with context := IntCtx.load s.mem ctx, contextSaved := 1 }
    return { s with tasks := Function.update s.tasks i task }
  else some s

def clockInterruptHandler (s : Machine) (ctx : Word) : Option (ClockExit × Machine) := do
  let nextTask := (s.currentTaskIdx + 1) % 2
  let s :=
    if nextTask = 1 then s.debug "Printing Counter... \n" []
    else s.debug "Increasing Counter... \n" []
  let s ← s.saveContext ctx
  let s ← s.setDataSegs d3Sel
  let next ← taskAt nextTask
  let s := { s with tss.s0.esp := (s.tasks next).interruptStack }
  let s ← s.setCr3 (s.tasks next).pgd
  let s := { s with currentTaskIdx := nextTask }
  if (s.tasks next).contextSaved = 1 then
    let s := { s with mem := s.mem.writeWords ctx (s.tasks next).context.words }
    let s := s.outb .clockInterruptHandler 32 32
    return (.ret, s)
  else
    return (.launch (s.tasks next).stack (s.tasks next).function, s)

/-! ## Calls of C functions -/

variable (img : Image) (σ : Scratch)

/-- The call pushes the return address, and the function makes its frame below it. -/
def enterC (s : Machine) (ret : Word) : Machine :=
  let frame := s.cpu.esp - BitVec.ofNat 32 img.frameSize
  { s with mem := (s.mem.blit frame img.frameSize σ.stack).write32 (s.cpu.esp - 4) ret }

/-- Back in the caller: the stack below has been used, EAX, ECX, EDX and the status
flags are anything. -/
def leaveC (s : Machine) (ret : Word) : Machine :=
  { s with
    mem := s.mem.blit (s.cpu.esp - BitVec.ofNat 32 img.cDepth) img.cDepth σ.stack
    cpu := { s.cpu with
      eax := σ.eax, ecx := σ.ecx, edx := σ.edx, eip := ret, shadow := false
      eflags := Eflags.blend s.cpu.eflags σ.flags Eflags.status } }

/-- Out of the C part of `clock_interrupt_handler` into its last statements, inside
the frame of the function. -/
def enterLaunch (s : Machine) (stack function : Word) : Machine :=
  { s with
    mem := s.mem.blit (s.cpu.esp - BitVec.ofNat 32 img.cDepth) img.cDepth σ.stack
    cpu := { s.cpu with
      eax := σ.eax, ecx := stack, edx := function, ebx := σ.ebx, ebp := σ.ebp, esi := σ.esi
      edi := σ.edi, eip := img.addr ⟨.firstLaunch, 0⟩, shadow := false
      esp := s.cpu.esp - BitVec.ofNat 32 img.frameSize
      eflags := Eflags.blend s.cpu.eflags σ.flags Eflags.status } }

/-- A C function that is called with a context pointer in EAX. Its first access to a
C object faults when DS cannot be used. -/
def callC (s : Machine) (f : CFun) (ret : Word) : Option Machine := do
  if !s.gdt.dataUsable s.cpu.ds then none else
  let ctx := s.cpu.eax
  let s := enterC img σ s ret
  match f with
  | .intrHdlr =>
    match intrHdlr s.cpu (IntCtx.load s.mem ctx) with
    | .ret out => some (leaveC img σ { s with console := s.console ++ out } ret)
    | .fatal _ => none
  | .syscallHandler => do
    let s ← s.syscallHandler ctx
    return leaveC img σ s ret
  | .clockInterruptHandler => do
    let (exit, s) ← s.clockInterruptHandler ctx
    match exit with
    | .ret => return leaveC img σ s ret
    | .launch stack function => return enterLaunch img σ s stack function

/-! ## Instructions -/

def writerOf : Block → Writer
  | .firstLaunch => .clockInterruptHandler
  | _ => .idt

def jump (s : Machine) (l : Word) : Machine :=
  { s with cpu := { s.cpu with eip := l, shadow := false } }

/-- One instruction of the kernel. -/
def execInstr (s : Machine) (pc : Pc) (i : Instr) : Option Machine :=
  let next := img.addr pc.next
  match i with
  | .op o =>
    let (cpu, mem) := o.eval s.cpu s.mem
    some { s with cpu := { cpu with eip := next }, mem }
  | .jmp l => some (s.jump (img.addr l))
  | .outAl port => some ((s.outb (writerOf pc.block) (field s.cpu.eax 0 8) port).jump next)
  | .outDx =>
    some ((s.outb (writerOf pc.block) (field s.cpu.eax 0 8) (field s.cpu.edx 0 16)).jump next)
  | .call f => callC img σ s f next
  | .iret => do
    let cpu ← s.cpu.iret s.gdt s.mem
    return { s with cpu }

/-- The kernel's next instruction. -/
def exec (s : Machine) : Option Machine := do
  if s.cpu.cpl ≠ 0 then none else
  let pc ← img.pcAt s.cpu.eip
  let i ← pc.instr?
  s.execInstr img σ pc i

/-- Run the kernel up to and including its next `iret`. -/
def handle : Nat → Machine → Option Machine
  | 0, _ => none
  | fuel + 1, s => do
    let pc ← img.pcAt s.cpu.eip
    let s' ← s.exec img σ
    if pc.instr? = some .iret then some s' else handle fuel s'

/-- More than any handler takes. -/
def handlerFuel : Nat := 32

/-! ## Interrupts -/

/-- The processor enters the handler of vector `v`. -/
def interrupt (s : Machine) (v : Nat) (err : Option Word) : Option Machine := do
  let g ← s.idt[v]?
  if !(g.present && g.type == segDescSysIntrGate32 && s.gdt.codeOk 0 (g.gateSelector &&& ~~~3))
  then none else
  if s.cpu.cpl ≠ 0 ∧ !s.gdt.stackOk 0 s.tss.s0.ss then none else
  let (cpu, mem) := s.cpu.deliver s.mem s.tss.s0.esp s.tss.s0.ss g err
  let s := { s with cpu, mem }
  if s.stackMapped then some s else none

/-- An interrupt and its whole handler. -/
def serve (s : Machine) (v : Nat) (err : Option Word) : Option Machine := do
  let s ← s.interrupt v err
  s.handle img σ handlerFuel

/-! ## Ring 3 -/

/-- What an instruction at level 3 does that reads and writes no port: any new
register contents, and stores of bytes. -/
structure UserStep where
  eax : Word
  ecx : Word
  edx : Word
  ebx : Word
  esp : Word
  ebp : Word
  esi : Word
  edi : Word
  eip : Word
  eflags : Word
  cs : Sel
  ss : Sel
  ds : Sel
  es : Sel
  fs : Sel
  gs : Sel
  stores : List (Word × Byte)

/-- Store bytes one after another, each through the page tables as they then are. -/
def userStores (dir : Word) : Mem → List (Word × Byte) → Option Mem
  | m, [] => some m
  | m, (va, b) :: rest =>
    match walk m dir va with
    | some t => if t.user && t.rw then userStores dir (m.blit t.pa 1 fun _ => b) rest else none
    | none => none

/-- The flags that level 3 may not change keep their values. After a load of SS the
processor waits one instruction before it takes a request; here it may take it at once. -/
def user (s : Machine) (u : UserStep) : Option Machine := do
  if s.cpu.cpl ≠ 3 then none else
  if !(s.gdt.codeOk 3 u.cs && s.gdt.stackOk 3 u.ss && s.gdt.dataOk 3 u.ds && s.gdt.dataOk 3 u.es
    && s.gdt.dataOk 3 u.fs && s.gdt.dataOk 3 u.gs) then none else
  let mem ← userStores s.cpu.cr3 s.mem u.stores
  return { s with
    mem
    cpu := { s.cpu with
      eax := u.eax, ecx := u.ecx, edx := u.edx, ebx := u.ebx, esp := u.esp, ebp := u.ebp
      esi := u.esi, edi := u.edi, eip := u.eip, cs := u.cs, ss := u.ss, ds := u.ds, es := u.es
      fs := u.fs, gs := u.gs, shadow := false
      eflags := Eflags.blend s.cpu.eflags u.eflags Eflags.user } }

/-- `int $n` at level 3: through the gate when its level allows it, else a general
protection fault at the instruction. -/
def softInt (s : Machine) (n : Fin 256) : Option Machine := do
  if s.cpu.cpl ≠ 3 then none else
  let g ← s.idt[n.val]?
  if g.dpl.ult s.cpu.cpl then serve img σ s 13 (some (BitVec.ofNat 32 (8 * n + 2)))
  else serve img σ { s with cpu := { s.cpu with eip := s.cpu.eip + 2 } } n none

/-- An exception raised at level 3. -/
def fault (s : Machine) (v : Nat) (err cr2 : Word) : Option Machine := do
  if s.cpu.cpl ≠ 3 ∨ 20 ≤ v then none else
  serve img σ { s with cpu := { s.cpu with cr2 } } v (if hasErrorCode v then some err else none)

/-- A line of the interrupt controllers asks for service. -/
def irq (s : Machine) (n : Nat) : Option Machine := do
  if !s.cpu.interruptible then none else
  let (pics, v) ← s.pics.accept n
  interrupt { s with pics } v.toNat none

/-- The processor's check of an access to `width` ports from `port` on: free to the
level IOPL names and above, else up to the bitmap of the task state segment. -/
def ioPermitted (s : Machine) (port width : Nat) : Bool :=
  if s.cpu.cpl.ule (field s.cpu.eflags 12 2) then true else
  match s.gdt.lookup tsSel with
  | some d => ioAllowed s.tss.byteAt d.limit.toNat s.tss.maps.addr.toNat port width
  | none => false

def outs (s : Machine) (port : BitVec 16) : List Byte → Machine
  | [] => s
  | b :: bs => (s.outb .ring3 b port).outs (port + 1) bs

/-- `out` at level 3, of one, two or four bytes. -/
def portOut (s : Machine) (port : BitVec 16) (bs : List Byte) : Option Machine := do
  if s.cpu.cpl ≠ 3 ∨ bs.length ∉ [1, 2, 4] then none else
  if s.ioPermitted port.toNat bs.length then some (s.outs port bs)
  else serve img σ s 13 (some 0)

/-- The `width` low bytes of `w`. -/
def lowBytes (width : Nat) (w : Word) : List Byte :=
  (List.range width).map fun k => field w (8 * k) 8

/-- The ports from `port` on are read, and answer with the low bytes of `value`. -/
def ins (s : Machine) (port : BitVec 16) (width : Nat) (value : Word) : Option Machine :=
  (s.pics.reads port (lowBytes width value)).map fun pics =>
    { s with pics, cpu := { s.cpu with eax := value } }

/-- `in` at level 3: what is read goes to EAX. -/
def portIn (s : Machine) (port : BitVec 16) (width : Nat) (value : Word) : Option Machine := do
  if s.cpu.cpl ≠ 3 ∨ width ∉ [1, 2, 4] then none else
  if s.ioPermitted port.toNat width then s.ins port width value
  else serve img σ s 13 (some 0)

end Machine

/-! ## Runs with handlers that are not interrupted -/

inductive Event where
  /-- An instruction at level 3 that touches no port and raises nothing. -/
  | user (u : Machine.UserStep)
  | int (n : Fin 256) (σ : Scratch)
  | fault (v : Nat) (err cr2 : Word) (σ : Scratch)
  | portOut (port : BitVec 16) (bs : List Byte) (σ : Scratch)
  | portIn (port : BitVec 16) (width : Nat) (value : Word) (σ : Scratch)
  /-- A request at a line of the controllers is accepted. -/
  | irq (n : Nat) (σ : Scratch)

/-- Each handler runs from its entry to its `iret` before the next event. -/
def step (img : Image) (s : Machine) : Event → Option Machine
  | .user u => s.user u
  | .int n σ => s.softInt img σ n
  | .fault v err cr2 σ => s.fault img σ v err cr2
  | .portOut port bs σ => s.portOut img σ port bs
  | .portIn port width value σ => s.portIn img σ port width value
  | .irq n σ => (s.irq n).bind (Machine.handle img σ Machine.handlerFuel)

end SecOS
