-- SUMMARY: The assembly of the kernel and of the exam: interrupt stubs, the common path of idt.s, the two service routines, and where each instruction is loaded.
import SecOS.Kernel.Pic
import SecOS.Kernel.Segmem
import SecOS.X86.Cpu

/-!
# Kernel text

Only what is written in assembly is text here: `idt.s`, the bodies of
`clock_interrupt_isr` and `syscall_isr`, and the `asm` statements at the end of
`clock_interrupt_handler`. A call of a compiled C function is one instruction.
-/

namespace SecOS

open X86

/-- The C functions that assembly calls, each with a context pointer in EAX. -/
inductive CFun where
  | intrHdlr
  | clockInterruptHandler
  | syscallHandler
  deriving DecidableEq

inductive Block where
  /-- The entry of `idt_trampoline` for a vector. -/
  | stub (v : Fin 256)
  /-- The `.text` of `idt.s`, from `ack_pic2` on. -/
  | idtText
  | clockInterruptIsr
  | syscallIsr
  /-- The `asm` statements that start a task for the first time. -/
  | firstLaunch
  /-- The loop at the end of `config`. -/
  | idle
  deriving DecidableEq

/-- An instruction by its block and its number in it. -/
structure Pc where
  block : Block
  idx : Nat
  deriving DecidableEq

namespace Pc

def next (pc : Pc) : Pc := { pc with idx := pc.idx + 1 }

end Pc

inductive Instr where
  | op (o : Op)
  | jmp (l : Pc)
  /-- `outb %al, $port` -/
  | outAl (port : BitVec 16)
  /-- `outb %al, %dx` -/
  | outDx
  | call (f : CFun)
  | iret
  deriving DecidableEq

/-! ## idt.s -/

def ackPic2 : Pc := ⟨.idtText, 0⟩
def ackPic1 : Pc := ⟨.idtText, 4⟩
def eoiPic1 : Pc := ⟨.idtText, 6⟩
def idtCommon : Pc := ⟨.idtText, 8⟩
def resumeFromIntr : Pc := ⟨.idtText, 11⟩

def idtText : List Instr :=
  [ -- ack_pic2
    .op (.push .eax), .op (.movAl 0x20), .outAl 0xa0, .jmp eoiPic1,
    -- ack_pic1
    .op (.push .eax), .op (.movAl 0x20),
    -- eoi_pic1
    .outAl 0x20, .op (.pop .eax),
    -- idt_common
    .op .pusha, .op (.mov .eax .esp), .call .intrHdlr,
    -- resume_from_intr
    .op .popa, .op (.addEsp 8), .iret ]

/-- An entry that pushes a dummy error code. -/
def stubPlain (nr : Nat) (l : Pc) : List Instr :=
  [.op (.pushi (-1)), .op (.pushi (BitVec.ofNat 32 nr)), .jmp l]

/-- An entry of an exception that comes with an error code. -/
def stubCode (nr : Nat) : List Instr := [.op (.pushi (BitVec.ofNat 32 nr)), .jmp idtCommon]

/-- The entries of `idt_trampoline` in their order. -/
def idtStubs : List (List Instr) :=
  [ stubPlain 0 idtCommon, stubPlain 1 idtCommon, stubPlain 2 idtCommon, stubPlain 3 idtCommon,
    stubPlain 4 idtCommon, stubPlain 5 idtCommon, stubPlain 6 idtCommon, stubPlain 7 idtCommon,
    stubCode 8, stubPlain 9 idtCommon, stubCode 10, stubCode 11, stubCode 12, stubCode 13,
    stubCode 14, stubPlain 15 idtCommon, stubPlain 16 idtCommon, stubCode 17,
    stubPlain 18 idtCommon, stubPlain 19 idtCommon ]
  ++ List.replicate 12 [.iret]
  ++ ([32, 33, 34, 35, 36, 37, 38, 39].map fun nr => stubPlain nr ackPic1)
  ++ ([40, 41, 42, 43, 44, 45, 46, 47].map fun nr => stubPlain nr ackPic2)
  ++ ((List.range' 48 208).map fun nr => stubPlain nr idtCommon)

/-- The exceptions for which the processor pushes an error code. -/
def hasErrorCode (v : Nat) : Bool := v == 8 || (10 ≤ v && v ≤ 14) || v == 17

theorem hasErrorCode_of_ge {v : Nat} (h : 32 ≤ v) : hasErrorCode v = false := by
  have h8 : ¬ v = 8 := by omega
  have h14 : ¬ v ≤ 14 := by omega
  have h17 : ¬ v = 17 := by omega
  simp [hasErrorCode, h8, h14, h17]

/-- Where the entry of a vector goes on. -/
def stubTarget (v : Nat) : Pc :=
  if 32 ≤ v ∧ v < 40 then ackPic1 else if 40 ≤ v ∧ v < 48 then ackPic2 else idtCommon

/-- What entry `v` does, by its number. -/
def stubOf (v : Nat) : List Instr :=
  if 20 ≤ v ∧ v < 32 then [.iret]
  else if hasErrorCode v then stubCode v
  else stubPlain v (stubTarget v)

theorem idtStubs_eq : idtStubs = (List.range 256).map stubOf := by decide +kernel

/-- Entry `v` of the listing is the one for vector `v`. -/
theorem getElem?_idtStubs {v : Nat} (hv : v < 256) : idtStubs[v]? = some (stubOf v) := by
  rw [idtStubs_eq, List.getElem?_map, List.getElem?_range hv, Option.map_some]

/-! ## Selectors -/

def c0Idx : Sel := 1
def d0Idx : Sel := 2
def c3Idx : Sel := 3
def d3Idx : Sel := 4
def tsIdx : Sel := 5

def c0Sel : Sel := gdtKrnSegSel c0Idx
def d0Sel : Sel := gdtKrnSegSel d0Idx
def c3Sel : Sel := gdtUsrSegSel c3Idx
def d3Sel : Sel := gdtUsrSegSel d3Idx
def tsSel : Sel := gdtKrnSegSel tsIdx

/-! ## Service routines -/

/-- `clock_interrupt_isr` and `syscall_isr` are C functions whose body is one `asm`
statement: the compiler's prologue comes first, and `leave` undoes it. -/
def isrText (f : CFun) : List Instr :=
  [ .op (.push .ebp), .op (.mov .ebp .esp),
    .op .cli, .op .leave, .op .pusha, .op (.mov .eax .esp), .call f,
    .op .popa, .op .sti, .iret ]

/-- The end of `clock_interrupt_handler` for a task that never ran. The compiler has
loaded `tasks[next_task].stack` into ECX and `tasks[next_task].function` into EDX;
between the two `asm` statements stands `outb(32, 32)`. -/
def firstLaunchText : List Instr :=
  [ .op .sti, .op (.pushi (d3Sel.setWidth 32)), .op (.push .ecx), .op .pushf,
    .op (.pushi (c3Sel.setWidth 32)), .op (.push .edx),
    .op (.movi .eax 32), .op (.movi .edx 32), .outDx,
    .op .sti, .iret ]

def text : Block → List Instr
  | .stub v => idtStubs[v.val]?.getD []
  | .idtText => idtText
  | .clockInterruptIsr => isrText .clockInterruptHandler
  | .syscallIsr => isrText .syscallHandler
  | .firstLaunch => firstLaunchText
  | .idle => [.jmp ⟨.idle, 0⟩]

namespace Pc

def instr? (pc : Pc) : Option Instr := (text pc.block)[pc.idx]?

/-- There is an instruction here. -/
def Valid (pc : Pc) : Prop := pc.idx < (text pc.block).length

instance (pc : Pc) : Decidable pc.Valid := inferInstanceAs (Decidable (_ < _))

end Pc

/-! ## Loading -/

def align16 (a : Nat) : Nat := (a + 15) / 16 * 16

/-- Where the assembler puts entry `v` when the section starts at `start` and every
entry begins with `.align 16`. -/
def stubStart (start : Nat) (size : Nat → Nat) : Nat → Nat
  | 0 => align16 start
  | v + 1 => align16 (stubStart start size v + size v)

/-- Entries of at most 16 bytes fill one slot each. -/
theorem stubStart_eq {start : Nat} {size : Nat → Nat} (hstart : start % 16 = 0)
    (hsize : ∀ v, 1 ≤ size v ∧ size v ≤ 16) (v : Nat) :
    stubStart start size v = start + 16 * v := by
  induction v with
  | zero => simp only [stubStart, align16]; omega
  | succ v ih =>
    have := hsize v
    rw [stubStart, ih]
    simp only [align16]
    omega

/-- What the compiler and the linker settle: the address of every instruction, of
the task state segment and of the two task functions, and how much stack compiled
code takes. -/
structure Image where
  addr : Pc → Word
  /-- The instruction at an address. -/
  pcAt : Word → Option Pc
  pcAt_addr : ∀ pc, pc.Valid → pcAt (addr pc) = some pc
  idtTrampoline : Word
  aligned : idtTrampoline.toNat % 16 = 0
  stubSize : Nat → Nat
  stubSize_bound : ∀ v, 1 ≤ stubSize v ∧ stubSize v ≤ 16
  addr_stub : ∀ v : Fin 256,
    addr ⟨.stub v, 0⟩ = BitVec.ofNat 32 (stubStart idtTrampoline.toNat stubSize v)
  tss : Word
  task1Function : Word
  task2Function : Word
  /-- Bytes below the stack pointer of the caller that an activation of a C handler
  takes for itself: return address, saved registers, locals. -/
  frameSize : Nat
  frameSize_pos : 4 ≤ frameSize
  /-- Bytes below the stack pointer of the caller that a C handler and what it calls
  may overwrite. -/
  cDepth : Nat
  frameSize_le : frameSize ≤ cDepth
  cDepth_le : cDepth ≤ 1024

namespace Image

variable (img : Image)

theorem addr_stub_eq (v : Fin 256) :
    img.addr ⟨.stub v, 0⟩ = img.idtTrampoline + BitVec.ofNat 32 (16 * v) := by
  rw [img.addr_stub, stubStart_eq img.aligned img.stubSize_bound]
  apply BitVec.eq_of_toNat_eq
  simp

end Image

end SecOS
