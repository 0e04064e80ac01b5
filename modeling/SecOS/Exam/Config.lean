-- SUMMARY: The configuration of the exam kernel up to its idle loop: segmentation, paging, gates and tasks, and the state they leave.
import SecOS.Exam.Machine
import SecOS.Exam.Pgds

/-!
# Configuration

`start` programs the interrupt controllers and the gates and calls `config`, which
sets up segmentation, page tables, two gates and two tasks, turns interrupts on and
loops. `Booted` says when a machine stands in that loop for the first time.
-/

namespace SecOS

open X86

/-! ## Descriptor tables -/

/-- The `GDT` once `config_segmentation` has filled it and loaded the task register. -/
def examGdt (tss : Word) : Gdt :=
  [0, gdtFlatDsc 0 segDescCodeXr, gdtFlatDsc 0 segDescDataRw, gdtFlatDsc 3 segDescCodeXr,
    gdtFlatDsc 3 segDescDataRw, setTr (createTssDsc tss)]

/-- What `config_interrupt` does to a gate: a new offset, and level 3 may call it. -/
def patchGate (isr : Word) (dsc : Desc) : Desc :=
  let dsc := setField dsc 0 (field isr 0 16)
  let dsc := setField dsc 48 (field isr 16 16)
  setField dsc 45 3#2

def clockVector : Nat := 32
def syscallVector : Nat := 0x80

/-! ## config -/

def interruptStackSize : Word := 4096
def interruptStackTask1 : Word := 0x380000
def interruptStackTask2 : Word := 0x390000

/-- The last word of a user stack of 4096 words. -/
def task1StackBase : Word := 0x400000 + 4 * (4096 - 1)
def task2StackBase : Word := 0x800000 + 4 * (4096 - 1)

namespace Machine

variable (img : Image)

def configSegmentation (s : Machine) : Machine :=
  { s with
    gdt := examGdt img.tss
    tss := { s.tss with s0 := { s.tss.s0 with esp := s.cpu.esp, ss := d0Sel } }
    cpu := { s.cpu with
      cs := gdtKrnSegSel c0Idx, ss := gdtKrnSegSel d0Idx, ds := gdtKrnSegSel d0Idx
      es := gdtKrnSegSel d0Idx, fs := gdtKrnSegSel d0Idx, gs := gdtKrnSegSel d0Idx } }

def cr0Pg : Word := 0x80000000

/-- Paging is on after the last store, so the stack has to be mapped then. -/
def configPgds (s : Machine) : Option Machine :=
  let s := { s with mem := configPgdsTables s.mem s.cpu.eflags }
  let s := { s with cpu := { s.cpu with cr3 := pgd } }
  let s := { s with cpu := { s.cpu with cr0 := s.cpu.cr0 ||| cr0Pg } }
  if s.stackMapped then some (s.debug "pagination enabled\n" []) else none

def configInterrupt (s : Machine) : Machine :=
  let clock := img.addr ⟨.clockInterruptIsr, 0⟩
  let s := { s with idt := s.idt.modify clockVector (patchGate clock) }
  let syscall := img.addr ⟨.syscallIsr, 0⟩
  { s with idt := s.idt.modify syscallVector (patchGate syscall) }

/-- `config_task` clears the saved context and the flag with it. -/
def configTask (func stack interruptStack pgd : Word) : Task where
  function := func
  stack := stack
  pgd := pgd
  interruptStack := interruptStack
  context := IntCtx.zero
  contextSaved := 0

def examTasks : Fin 2 → Task
  | 0 =>
    configTask img.task1Function task1StackBase (interruptStackTask1 + interruptStackSize) pgdTask1
  | 1 =>
    configTask img.task2Function task2StackBase (interruptStackTask2 + interruptStackSize) pgdTask2

/-- Up to the loop, interrupts on and the shadow of `sti` spent by the `nop`. -/
def config (s : Machine) : Option Machine := do
  let s := s.configSegmentation img
  let s ← s.configPgds
  let s := s.configInterrupt img
  let s := { s with tasks := examTasks img }
  let s ← s.setDataSegs d3Sel
  let s := { s with tss := { s.tss with s0 := { s.tss.s0 with esp := (s.tasks 0).interruptStack } } }
  let s ← s.setCr3 (s.tasks 0).pgd
  return { s with cpu := { s.cpu with
    eflags := s.cpu.eflags ||| Eflags.intr, shadow := false, eip := img.addr ⟨.idle, 0⟩ } }

/-- The part of `start` before `config` that later interrupts depend on. -/
def start (s : Machine) : Option Machine :=
  let s := { s with pics := picInit s.pics }
  let s := { s with idt := intrInit img.idtTrampoline }
  s.config img

/-- The machine inside `start`: level 0 and interrupts off since `entry`, the stack
pointer in the boot stack, and the C objects as the image holds them. -/
structure Entered (s : Machine) : Prop where
  eflags : s.cpu.eflags &&& ~~~Eflags.status = 2
  esp_lo : 0x301000 ≤ s.cpu.esp.toNat
  esp_hi : s.cpu.esp.toNat ≤ 0x302010
  currentTaskIdx : s.currentTaskIdx = -1
  tss : s.tss = Tss.zero

/-- A state that `config` leaves when the kernel is started. -/
def Booted (s : Machine) : Prop := ∃ s₀, Entered s₀ ∧ s₀.start img = some s

end Machine

end SecOS
