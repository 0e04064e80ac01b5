-- SUMMARY: Processor registers, straight-line instructions on the stack and the flags, interrupt delivery through a gate, and IRET.
import SecOS.X86.Memory
import SecOS.X86.Descriptor

/-!
# Processor

The registers, and the instructions and events that move a context between the
registers and a stack: `pusha`, `popa`, `leave`, delivery through an interrupt
gate with or without a change of stack, and `iret`. Memory operands are linear
addresses; who maps them to physical ones is not said here.
-/

namespace X86

/-! ## EFLAGS -/

namespace Eflags

def tf : Word := 0x100
/-- Interrupt enable. -/
def intr : Word := 0x200
def iopl : Word := 0x3000
def nt : Word := 0x4000
def rf : Word := 0x10000
def vm : Word := 0x20000

/-- What an interrupt gate clears on entry. -/
def gateClear : Word := intr ||| tf ||| nt ||| rf ||| vm

/-- CF, PF, AF, ZF, SF and OF: what ordinary code leaves behind. -/
def status : Word := 0x8d5

/-- What a program at level 3 can change when IOPL is 0: the status flags, TF, DF,
NT, RF, AC and ID, but neither IF nor IOPL nor VM. -/
def user : Word := 0x254dd5

/-- The bits of `new` selected by `mask`, the others from `old`. -/
def blend (old new mask : Word) : Word := (new &&& mask) ||| (old &&& ~~~mask)

/-- Bits outside the mask keep their old values. -/
theorem blend_and {mask k : Word} (old new : Word) (h : mask &&& k = 0) :
    blend old new mask &&& k = old &&& k := by
  apply BitVec.eq_of_getLsbD_eq
  intro i hi
  have hbit := congrArg (fun w => w.getLsbD i) h
  simp only [BitVec.getLsbD_and] at hbit
  simp only [blend, BitVec.getLsbD_and, BitVec.getLsbD_or, BitVec.getLsbD_not, hi, decide_true,
    Bool.true_and]
  revert hbit
  cases mask.getLsbD i <;> cases k.getLsbD i <;> simp

/-- A gate clears every bit it names. -/
theorem and_not_and {mask k : Word} (f : Word) (h : k &&& ~~~mask = 0) :
    f &&& ~~~mask &&& k = 0 := by
  rw [BitVec.and_assoc, BitVec.and_comm (~~~mask) k, h]
  exact BitVec.and_zero

/-- Some of the bits that are known, read off all of them. -/
theorem and_of_and {f mask v k : Word} (h : f &&& mask = v) (hk : mask &&& k = k) :
    f &&& k = v &&& k := by
  rw [← hk, ← BitVec.and_assoc, h, hk]

end Eflags

/-! ## Registers -/

inductive Reg where
  | eax
  | ecx
  | edx
  | ebx
  | esp
  | ebp
  | esi
  | edi
  deriving DecidableEq

structure Cpu where
  eax : Word
  ecx : Word
  edx : Word
  ebx : Word
  esp : Word
  ebp : Word
  esi : Word
  edi : Word
  eip : Word
  eflags : Word
  cs : Sel
  ss : Sel
  ds : Sel
  es : Sel
  fs : Sel
  gs : Sel
  cr0 : Word
  cr2 : Word
  cr3 : Word
  cr4 : Word
  /-- Interrupts are held off for one more instruction. -/
  shadow : Bool
  deriving DecidableEq, Inhabited

namespace Cpu

def get (c : Cpu) : Reg → Word
  | .eax => c.eax
  | .ecx => c.ecx
  | .edx => c.edx
  | .ebx => c.ebx
  | .esp => c.esp
  | .ebp => c.ebp
  | .esi => c.esi
  | .edi => c.edi

def set (c : Cpu) (r : Reg) (v : Word) : Cpu :=
  match r with
  | .eax => { c with eax := v }
  | .ecx => { c with ecx := v }
  | .edx => { c with edx := v }
  | .ebx => { c with ebx := v }
  | .esp => { c with esp := v }
  | .ebp => { c with ebp := v }
  | .esi => { c with esi := v }
  | .edi => { c with edi := v }

/-- Current privilege level. -/
def cpl (c : Cpu) : BitVec 2 := Sel.rpl c.cs

def intrFlag (c : Cpu) : Bool := c.eflags.getLsbD 9

/-- A maskable interrupt may be taken before the next instruction. -/
def interruptible (c : Cpu) : Bool := c.intrFlag && !c.shadow

section IntrFlag

variable {c : Cpu}

theorem intrFlag_eq_true (h : c.eflags &&& Eflags.intr = Eflags.intr) : c.intrFlag = true := by
  have h9 := congrArg (fun w => w.getLsbD 9) h
  simpa [Eflags.intr, intrFlag] using h9

theorem intrFlag_eq_false (h : c.eflags &&& Eflags.intr = 0) : c.intrFlag = false := by
  have h9 := congrArg (fun w => w.getLsbD 9) h
  simpa [Eflags.intr, intrFlag] using h9

theorem interruptible_eq (hflag : c.intrFlag = true) (hshadow : c.shadow = false) :
    c.interruptible = true := by
  rw [interruptible, hflag, hshadow]
  rfl

theorem not_interruptible (hflag : c.intrFlag = false) : c.interruptible = false := by
  rw [interruptible, hflag]
  rfl

end IntrFlag

end Cpu

/-! ## Straight-line instructions -/

/-- The instructions that touch only the registers and the stack. -/
inductive Op where
  | push (r : Reg)
  | pop (r : Reg)
  | pushi (v : Word)
  | pushf
  | mov (dst src : Reg)
  | movi (dst : Reg) (v : Word)
  /-- Move an immediate to AL. -/
  | movAl (v : Byte)
  | addEsp (v : Word)
  | subEsp (v : Word)
  | cli
  | sti
  | leave
  | pusha
  | popa
  deriving DecidableEq

namespace Cpu

/-- The registers in the order `pusha` pushes them. -/
def gprs (c : Cpu) : List Word := [c.eax, c.ecx, c.edx, c.ebx, c.esp, c.ebp, c.esi, c.edi]

/-- `popa` reads the same block back and throws away the stack pointer in it. -/
def popa (c : Cpu) (m : Mem) : Cpu :=
  match m.readWords c.esp 8 with
  | [edi, esi, ebp, _, ebx, edx, ecx, eax] =>
    { c with eax, ecx, edx, ebx, ebp, esi, edi, esp := c.esp + 32 }
  | _ => c

/-- `sti` holds interrupts off for one instruction only when they were off before. -/
def sti (c : Cpu) : Cpu :=
  { c with eflags := c.eflags ||| Eflags.intr, shadow := !c.intrFlag }

end Cpu

/-- Run one straight-line instruction. The interrupt shadow of the instruction
before is over. -/
def Op.eval (o : Op) (c : Cpu) (m : Mem) : Cpu × Mem :=
  let c := { c with shadow := false }
  match o with
  | .push r => ({ c with esp := c.esp - 4 }, m.write32 (c.esp - 4) (c.get r))
  | .pop r => ({ c with esp := c.esp + 4 }.set r (m.read32 c.esp), m)
  | .pushi v => ({ c with esp := c.esp - 4 }, m.write32 (c.esp - 4) v)
  | .pushf => ({ c with esp := c.esp - 4 }, m.write32 (c.esp - 4) c.eflags)
  | .mov dst src => (c.set dst (c.get src), m)
  | .movi dst v => (c.set dst v, m)
  | .movAl v => ({ c with eax := setField c.eax 0 v }, m)
  | .addEsp v => ({ c with esp := c.esp + v }, m)
  | .subEsp v => ({ c with esp := c.esp - v }, m)
  | .cli => ({ c with eflags := c.eflags &&& ~~~Eflags.intr }, m)
  | .sti => (c.sti, m)
  | .leave => ({ c with esp := c.ebp + 4, ebp := m.read32 c.ebp }, m)
  | .pusha => ({ c with esp := Mem.below c.esp 8 }, m.pushWords c.esp c.gprs)
  | .popa => (c.popa m, m)

/-! ## Sequences -/

def evalOps (os : List Op) (c : Cpu) (m : Mem) : Cpu × Mem :=
  os.foldl (fun p o => o.eval p.1 p.2) (c, m)

section Sequences

@[simp] theorem evalOps_nil (c : Cpu) (m : Mem) : evalOps [] c m = (c, m) := rfl

@[simp] theorem evalOps_cons (o : Op) (os : List Op) (c : Cpu) (m : Mem) :
    evalOps (o :: os) c m = evalOps os (o.eval c m).1 (o.eval c m).2 := rfl

theorem Cpu.popa_eip (c : Cpu) (m : Mem) (a : Word) :
    { c with eip := a }.popa m = { c.popa m with eip := a } := by
  simp only [Cpu.popa]
  split <;> rfl

/-- A straight-line instruction neither reads nor moves the instruction pointer. -/
theorem Op.eval_eip (o : Op) (c : Cpu) (m : Mem) (a : Word) :
    o.eval { c with eip := a } m = ({ (o.eval c m).1 with eip := a }, (o.eval c m).2) := by
  cases o with
  | push r => cases r <;> rfl
  | pop r => cases r <;> rfl
  | mov dst src => cases dst <;> cases src <;> rfl
  | movi dst v => cases dst <;> rfl
  | popa => simp only [Op.eval, Cpu.popa_eip { c with shadow := false } m a]
  | _ => rfl

theorem evalOps_eip (os : List Op) (c : Cpu) (m : Mem) (a : Word) :
    evalOps os { c with eip := a } m
      = ({ (evalOps os c m).1 with eip := a }, (evalOps os c m).2) := by
  induction os generalizing c m with
  | nil => rfl
  | cons o os ih => simp only [evalOps_cons, Op.eval_eip, ih]

theorem Cpu.popa_cs (c : Cpu) (m : Mem) : (c.popa m).cs = c.cs := by
  simp only [Cpu.popa]
  split <;> rfl

theorem Op.eval_cs (o : Op) (c : Cpu) (m : Mem) : (o.eval c m).1.cs = c.cs := by
  cases o with
  | pop r => cases r <;> rfl
  | mov dst src => cases dst <;> cases src <;> rfl
  | movi dst v => cases dst <;> rfl
  | popa => exact Cpu.popa_cs { c with shadow := false } m
  | _ => rfl

theorem Cpu.popa_eflags (c : Cpu) (m : Mem) : (c.popa m).eflags = c.eflags := by
  simp only [Cpu.popa]
  split <;> rfl

/-- Only `sti` turns interrupts on. -/
theorem Op.eval_intr {o : Op} {c : Cpu} (m : Mem) (hsti : o ≠ .sti)
    (h : c.eflags &&& Eflags.intr = 0) : (o.eval c m).1.eflags &&& Eflags.intr = 0 := by
  cases o with
  | pop r => cases r <;> exact h
  | mov dst src => cases dst <;> cases src <;> exact h
  | movi dst v => cases dst <;> exact h
  | cli =>
    simp only [Op.eval]
    exact Eflags.and_not_and _ (by decide)
  | sti => exact absurd rfl hsti
  | popa =>
    simp only [Op.eval]
    rw [Cpu.popa_eflags]
    exact h
  | _ => exact h

/-- The registers after `popa`, when the block on the stack is known. -/
theorem Cpu.popa_eq {c : Cpu} {m : Mem} {edi esi ebp esp ebx edx ecx eax : Word}
    (h : m.readWords c.esp 8 = [edi, esi, ebp, esp, ebx, edx, ecx, eax]) :
    c.popa m = { c with eax, ecx, edx, ebx, ebp, esi, edi, esp := c.esp + 32 } := by
  simp only [Cpu.popa, h]

end Sequences

/-! ## Interrupt delivery and return -/

namespace Cpu

/-- What the processor pushes when it enters a handler, in the order it is pushed:
the outer stack only when the level changes, the error code only if there is one. -/
def trapFrame (c : Cpu) (err : Option Word) : List Word :=
  (if c.cpl = 0 then [] else [c.ss.setWidth 32, c.esp])
    ++ [c.eflags, c.cs.setWidth 32, c.eip] ++ err.toList

/-- Enter the handler of interrupt gate `g` at level 0. `esp0` and `ss0` are the
stack of the task state segment, used when the level changes. -/
def deliver (c : Cpu) (m : Mem) (esp0 : Word) (ss0 : Sel) (g : Desc) (err : Option Word) :
    Cpu × Mem :=
  let sp := if c.cpl = 0 then c.esp else esp0
  let ws := c.trapFrame err
  ({ c with
      esp := Mem.below sp ws.length
      ss := if c.cpl = 0 then c.ss else ss0
      cs := g.gateSelector &&& ~~~3
      eip := g.gateOffset
      eflags := c.eflags &&& ~~~Eflags.gateClear
      shadow := false }, m.pushWords sp ws)

/-- Return from a handler at level 0, to the same level or to an outer one. There
is no successor when the processor would fault, switch tasks or enter
virtual-8086 mode instead. -/
def iret (gdt : Gdt) (c : Cpu) (m : Mem) : Option Cpu :=
  match m.readWords c.esp 5 with
  | [eip, cs, eflags, esp, ss] =>
    let cs : Sel := cs.setWidth 16
    let ss : Sel := ss.setWidth 16
    let pl := Sel.rpl cs
    if (c.eflags &&& Eflags.nt) != 0 || (eflags &&& Eflags.vm) != 0 || !gdt.codeOk pl cs then none
    else if pl = 0 then
      some { c with eip, cs, eflags, esp := c.esp + 12, shadow := false }
    else if gdt.stackOk pl ss then
      some { c with
        eip, cs, eflags, esp, ss, shadow := false
        ds := gdt.outerData pl c.ds
        es := gdt.outerData pl c.es
        fs := gdt.outerData pl c.fs
        gs := gdt.outerData pl c.gs }
    else none
  | _ => none

section Iret

variable {g : Gdt} {c : Cpu} {m : Mem} {eip cs eflags esp ss : Word}

/-- Return to level 3, when the frame on the stack is known and its selectors load. -/
theorem iret_outer (h : m.readWords c.esp 5 = [eip, cs, eflags, esp, ss])
    (hnt : c.eflags &&& Eflags.nt = 0) (hvm : eflags &&& Eflags.vm = 0)
    (hpl : Sel.rpl (cs.setWidth 16) = 3) (hcs : g.codeOk 3 (cs.setWidth 16) = true)
    (hss : g.stackOk 3 (ss.setWidth 16) = true) :
    c.iret g m = some { c with
      eip, cs := cs.setWidth 16, eflags, esp, ss := ss.setWidth 16, shadow := false
      ds := g.outerData 3 c.ds, es := g.outerData 3 c.es
      fs := g.outerData 3 c.fs, gs := g.outerData 3 c.gs } := by
  have h3 : ¬ (3 : BitVec 2) = 0 := by decide
  rw [iret, h]
  simp only [hnt, hvm, hpl, hcs, hss, h3, bne_self_eq_false, Bool.not_true, Bool.or_self,
    Bool.false_eq_true, if_false, if_true]

/-- Return to level 0 leaves the stack where the frame ends. -/
theorem iret_inner (h : m.readWords c.esp 3 = [eip, cs, eflags])
    (hnt : c.eflags &&& Eflags.nt = 0) (hvm : eflags &&& Eflags.vm = 0)
    (hpl : Sel.rpl (cs.setWidth 16) = 0) (hcs : g.codeOk 0 (cs.setWidth 16) = true) :
    c.iret g m = some { c with
      eip, cs := cs.setWidth 16, eflags, esp := c.esp + 12, shadow := false } := by
  have h5 : m.readWords c.esp 5
      = [eip, cs, eflags, m.read32 (c.esp + 12), m.read32 (c.esp + 12 + 4)] := by
    rw [Mem.readWords_append m c.esp 3 2, h]
    rfl
  rw [iret, h5]
  simp only [hnt, hvm, hpl, hcs, bne_self_eq_false, Bool.not_true, Bool.or_self,
    Bool.false_eq_true, if_false, if_true]

end Iret

end Cpu

end X86
