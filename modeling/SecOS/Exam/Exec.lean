-- SUMMARY: Symbolic execution of the kernel's assembly: fetching, straight-line blocks, and the instructions that leave a block.
import SecOS.Exam.Machine

/-!
# Execution of blocks

Each lemma takes a machine at an instruction of known text and says what `handle`
makes of it. The proofs about handlers chain them from an entry to its `iret`.
-/

namespace SecOS

open X86

namespace Machine

variable {img : Image} {σ : Scratch} {s : Machine} {k : Nat}

/-! ## Fetching -/

/-- The machine is about to execute the instruction at `pc` in the kernel. -/
structure At (img : Image) (s : Machine) (pc : Pc) : Prop where
  eip : s.cpu.eip = img.addr pc
  cpl : s.cpu.cpl = 0

theorem pcAt_of_at {pc : Pc} {i : Instr} (h : s.At img pc) (hi : pc.instr? = some i) :
    img.pcAt s.cpu.eip = some pc := by
  rw [h.eip]
  refine img.pcAt_addr pc ?_
  by_contra hlen
  rw [Pc.instr?, List.getElem?_eq_none (Nat.le_of_not_lt hlen)] at hi
  cases hi

theorem exec_at {pc : Pc} {i : Instr} (h : s.At img pc) (hi : pc.instr? = some i) :
    s.exec img σ = s.execInstr img σ pc i := by
  have hcpl : ¬ s.cpu.cpl ≠ 0 := not_not_intro h.cpl
  simp only [exec, hcpl, if_false, pcAt_of_at h hi, hi, Option.bind_eq_bind, Option.bind_some]

/-! ## Paths -/

/-- `n` instructions of the kernel, none of them an `iret`. -/
inductive Path (img : Image) (σ : Scratch) : Nat → Machine → Machine → Prop where
  | nil (s : Machine) : Path img σ 0 s s
  | cons {s u t : Machine} {pc : Pc} {n : Nat} (hpc : img.pcAt s.cpu.eip = some pc)
      (hne : pc.instr? ≠ some .iret) (hexec : s.exec img σ = some u) (hpath : Path img σ n u t) :
      Path img σ (n + 1) s t

/-- A handler can be followed along a path. -/
theorem Path.handle {n : Nat} {t : Machine} (h : Path img σ n s t) :
    s.handle img σ (k + n) = t.handle img σ k := by
  induction h with
  | nil s => rfl
  | cons hpc hne hexec hpath ih =>
    rw [← Nat.add_assoc]
    simp only [Machine.handle, hpc, hexec, hne, if_false, Option.bind_eq_bind, Option.bind_some]
    exact ih

/-- Neither a call nor an `iret`. -/
def Plain (i : Instr) : Prop := i ≠ .iret ∧ ∀ f, i ≠ .call f

/-- `n` plain instructions of the kernel, each of them begun in a state with `Q`. What
C code leaves behind plays no part in them. -/
inductive Straight (img : Image) (Q : Machine → Prop) : Nat → Machine → Machine → Prop where
  | nil (s : Machine) : Straight img Q 0 s s
  | cons {s u t : Machine} {pc : Pc} {i : Instr} {n : Nat} (hat : s.At img pc)
      (hi : pc.instr? = some i) (hplain : Plain i) (hq : Q s)
      (hexec : ∀ σ, s.execInstr img σ pc i = some u) (hrest : Straight img Q n u t) :
      Straight img Q (n + 1) s t

section Straight

variable {Q : Machine → Prop}

theorem Straight.trans {k n : Nat} {t u : Machine} (h : Straight img Q k s t)
    (h' : Straight img Q n t u) : Straight img Q (k + n) s u := by
  induction h with
  | nil s => rwa [Nat.zero_add]
  | cons hat hi hplain hq hexec hrest ih =>
    rw [Nat.succ_add]
    exact .cons hat hi hplain hq hexec (ih h')

theorem Straight.path {n : Nat} {t : Machine} (h : Straight img Q n s t) (σ : Scratch) :
    Path img σ n s t := by
  induction h with
  | nil s => exact .nil s
  | cons hat hi hplain hq hexec hrest ih =>
    refine .cons (pcAt_of_at hat hi) ?_ ((exec_at hat hi).trans (hexec σ)) ih
    rw [hi]
    exact fun heq => hplain.1 (Option.some.inj heq)

theorem Straight.handle {n : Nat} {t : Machine} (h : Straight img Q n s t) :
    s.handle img σ (k + n) = t.handle img σ k := (h.path σ).handle

theorem Straight.single {pc : Pc} {i : Instr} {t : Machine} (h : s.At img pc)
    (hi : pc.instr? = some i) (hplain : Plain i) (hq : Q s)
    (ht : ∀ σ, s.execInstr img σ pc i = some t) : Straight img Q 1 s t :=
  .cons h hi hplain hq ht (.nil t)

end Straight

/-- An `iret` is the last instruction of a handler. -/
theorem handle_iret (pc : Pc) (h : s.At img pc) (hi : pc.instr? = some .iret) :
    s.handle img σ (k + 1) = (s.cpu.iret s.gdt s.mem).map fun cpu => { s with cpu } := by
  simp only [handle, pcAt_of_at h hi, exec_at h hi, hi, if_true, execInstr, Option.bind_eq_bind,
    Option.bind_some]
  cases s.cpu.iret s.gdt s.mem <;> rfl

theorem instr?_of_drop {b : Block} {n : Nat} {i : Instr} {rest : List Instr}
    (h : (text b).drop n = i :: rest) : Pc.instr? ⟨b, n⟩ = some i := by
  have h0 := congrArg (fun l => l[0]?) h
  simpa [Pc.instr?] using h0

theorem drop_succ {b : Block} {n : Nat} {i : Instr} {rest : List Instr}
    (h : (text b).drop n = i :: rest) : (text b).drop (n + 1) = rest := by
  have h1 := congrArg List.tail h
  simpa [List.tail_drop] using h1

/-! ## Straight-line code -/

/-- The machine after the straight-line instructions `os`, at `pc`. -/
def afterOps (img : Image) (s : Machine) (os : List Op) (pc : Pc) : Machine :=
  { s with
    cpu := { (evalOps os s.cpu s.mem).1 with eip := img.addr pc }
    mem := (evalOps os s.cpu s.mem).2 }

theorem evalOps_cs (os : List Op) (c : Cpu) (m : Mem) : (evalOps os c m).1.cs = c.cs := by
  induction os generalizing c m with
  | nil => rfl
  | cons o os ih => rw [evalOps_cons, ih, Op.eval_cs]

theorem at_afterOps {pc pc' : Pc} {os : List Op} (h : s.At img pc) :
    (s.afterOps img os pc').At img pc' := by
  refine ⟨rfl, ?_⟩
  have hcs : (s.afterOps img os pc').cpu.cs = s.cpu.cs := evalOps_cs os s.cpu s.mem
  rw [Cpu.cpl, hcs]
  exact h.cpl

theorem execInstr_op {pc : Pc} {o : Op} :
    s.execInstr img σ pc (.op o) = some (s.afterOps img [o] pc.next) := rfl

theorem afterOps_nil {pc : Pc} (h : s.At img pc) : s.afterOps img [] pc = s := by
  simp only [afterOps, evalOps_nil, ← h.eip]

theorem afterOps_cons (o : Op) (os : List Op) (pc pc' : Pc) :
    (s.afterOps img [o] pc').afterOps img os pc = s.afterOps img (o :: os) pc := by
  simp only [afterOps, evalOps_nil, evalOps_cons, evalOps_eip]

/-- A run of straight-line instructions inside a block. -/
theorem straight_ops {Q : Machine → Prop} {b : Block} {n : Nat} {rest : List Instr} (os : List Op)
    (h : s.At img ⟨b, n⟩) (hdrop : (text b).drop n = os.map .op ++ rest)
    (hq : ∀ j < os.length, Q (s.afterOps img (os.take j) ⟨b, n + j⟩)) :
    Straight img Q os.length s (s.afterOps img os ⟨b, n + os.length⟩) := by
  induction os generalizing s n with
  | nil =>
    simp only [List.length_nil, Nat.add_zero, afterOps_nil h]
    exact .nil s
  | cons o os ih =>
    have hi := instr?_of_drop hdrop
    have hfirst : Q s := by
      have h0 := hq 0 (Nat.succ_pos _)
      rwa [List.take_zero, Nat.add_zero, afterOps_nil h] at h0
    have hrest := ih (s := s.afterOps img [o] ⟨b, n + 1⟩) (at_afterOps h) (drop_succ hdrop)
      fun j hj => by
        have hj' := hq (j + 1) (Nat.succ_lt_succ hj)
        rwa [afterOps_cons, Nat.add_assoc, Nat.add_comm 1 j]
    rw [afterOps_cons, Nat.add_assoc, Nat.add_comm 1 os.length] at hrest
    exact .cons h hi (by simp [Plain]) hfirst (fun _ => execInstr_op) hrest

theorem at_jump {l : Pc} (h : s.cpu.cpl = 0) : (s.jump (img.addr l)).At img l := ⟨rfl, h⟩

section Straight

variable {Q : Machine → Prop}

theorem straight_jmp (pc l : Pc) (h : s.At img pc) (hi : pc.instr? = some (.jmp l)) (hq : Q s) :
    Straight img Q 1 s (s.jump (img.addr l)) :=
  .single h hi (by simp [Plain]) hq fun _ => rfl

theorem straight_outAl (pc : Pc) (port : BitVec 16) (h : s.At img pc)
    (hi : pc.instr? = some (.outAl port)) (hq : Q s) :
    Straight img Q 1 s
      ((s.outb (writerOf pc.block) (field s.cpu.eax 0 8) port).jump (img.addr pc.next)) :=
  .single h hi (by simp [Plain]) hq fun _ => rfl

theorem straight_outDx (pc : Pc) (h : s.At img pc) (hi : pc.instr? = some .outDx) (hq : Q s) :
    Straight img Q 1 s
      ((s.outb (writerOf pc.block) (field s.cpu.eax 0 8) (field s.cpu.edx 0 16)).jump
        (img.addr pc.next)) :=
  .single h hi (by simp [Plain]) hq fun _ => rfl

end Straight

/-! ## Interrupts off -/

def IntrOff (s : Machine) : Prop := s.cpu.eflags &&& Eflags.intr = 0

theorem IntrOff.afterOps (h : s.IntrOff) {os : List Op} {pc : Pc} (hsti : Op.sti ∉ os) :
    (s.afterOps img os pc).IntrOff := by
  have hops (c : Cpu) (m : Mem) (hc : c.eflags &&& Eflags.intr = 0) :
      (evalOps os c m).1.eflags &&& Eflags.intr = 0 := by
    induction os generalizing c m with
    | nil => exact hc
    | cons o os ih =>
      rw [List.mem_cons, not_or] at hsti
      exact ih hsti.2 _ _ (Op.eval_intr m (Ne.symm hsti.1) hc)
  exact hops s.cpu s.mem h

/-- A run of straight-line instructions with interrupts off all the way: `sti` can only
be the last of them. -/
theorem straight_off {b : Block} {n : Nat} {rest : List Instr} (os : List Op)
    (h : s.At img ⟨b, n⟩) (hdrop : (text b).drop n = os.map .op ++ rest) (hoff : s.IntrOff)
    (hsti : Op.sti ∉ os.dropLast) :
    Straight img IntrOff os.length s (s.afterOps img os ⟨b, n + os.length⟩) := by
  apply straight_ops os h hdrop
  intro j hj
  apply hoff.afterOps
  intro hmem
  apply hsti
  rw [List.dropLast_eq_take]
  exact List.take_subset_take_left os (by omega) hmem

/-- A call, which may not come back. -/
theorem handle_call (pc : Pc) (f : CFun) (h : s.At img pc) (hi : pc.instr? = some (.call f)) :
    s.handle img σ (k + 1)
      = (s.callC img σ f (img.addr pc.next)).bind fun s' => s'.handle img σ k := by
  have hne : ¬ some (Instr.call f) = some Instr.iret := by simp
  simp only [handle, pcAt_of_at h hi, exec_at h hi, hi, hne, if_false, Option.bind_eq_bind,
    Option.bind_some, execInstr]

/-! ## Calls -/

section EnterC

variable (img σ s) (ret : Word)

@[simp] theorem enterC_cpu : (enterC img σ s ret).cpu = s.cpu := rfl
@[simp] theorem enterC_pics : (enterC img σ s ret).pics = s.pics := rfl
@[simp] theorem enterC_gdt : (enterC img σ s ret).gdt = s.gdt := rfl
@[simp] theorem enterC_idt : (enterC img σ s ret).idt = s.idt := rfl
@[simp] theorem enterC_tss : (enterC img σ s ret).tss = s.tss := rfl
@[simp] theorem enterC_currentTaskIdx :
    (enterC img σ s ret).currentTaskIdx = s.currentTaskIdx := rfl
@[simp] theorem enterC_tasks : (enterC img σ s ret).tasks = s.tasks := rfl
@[simp] theorem enterC_console : (enterC img σ s ret).console = s.console := rfl
@[simp] theorem enterC_ports : (enterC img σ s ret).ports = s.ports := rfl

end EnterC

/-- The frame of a call lies below the stack pointer. -/
theorem enterC_mem_not_within {ret b : Word}
    (hb : ¬ Within (s.cpu.esp - BitVec.ofNat 32 img.cDepth) img.cDepth b) :
    (enterC img σ s ret).mem b = s.mem b := by
  have h4 := img.frameSize_pos
  have hle := img.frameSize_le
  have hle' := img.cDepth_le
  simp only [enterC]
  rw [Mem.write32_not_within, Mem.blit_not_within]
  · simp only [Within] at *; bv_omega
  · simp only [Within] at *; bv_omega

theorem enterC_readWords {ret : Word} {n : Nat} (hn : n ≤ 64) :
    (enterC img σ s ret).mem.readWords s.cpu.esp n = s.mem.readWords s.cpu.esp n := by
  have hle := img.cDepth_le
  refine Mem.readWords_congr (by omega) fun b hb => enterC_mem_not_within ?_
  simp only [Within] at *
  bv_omega

variable (img σ s) in
@[simp] theorem load_enterC (ret : Word) :
    IntCtx.load (enterC img σ s ret).mem s.cpu.esp = IntCtx.load s.mem s.cpu.esp := by
  rw [IntCtx.load, enterC_readWords (by decide), IntCtx.load]

variable (img σ s) in
/-- Once the call is over, the frame is part of what it has overwritten. -/
theorem blit_enterC (ret : Word) :
    (enterC img σ s ret).mem.blit (s.cpu.esp - BitVec.ofNat 32 img.cDepth) img.cDepth σ.stack
      = s.mem.blit (s.cpu.esp - BitVec.ofNat 32 img.cDepth) img.cDepth σ.stack :=
  Mem.blit_congr fun _ hb => enterC_mem_not_within hb

/-! ## Service routines -/

/-- The compiler's prologue, `cli`, `leave`, `pusha`, and the context pointer in EAX. -/
def isrPrologue : List Op :=
  [.push .ebp, .mov .ebp .esp, .cli, .leave, .pusha, .mov .eax .esp]

/-- `leave` undoes the prologue, so `pusha` stores the registers at the interrupt. -/
theorem evalOps_isrPrologue (c : Cpu) (m : Mem) :
    evalOps isrPrologue c m
      = ({ c with
            eax := Mem.below c.esp 8, esp := Mem.below c.esp 8
            eflags := c.eflags &&& ~~~Eflags.intr, shadow := false },
          m.pushWords c.esp c.gprs) := by
  simp only [isrPrologue, evalOps_cons, evalOps_nil, Op.eval, Cpu.get, Cpu.set, Cpu.gprs,
    Mem.read32_write32, BitVec.sub_add_cancel, Mem.pushWords_write32]

/-- The end of a service routine, when the block on the stack is known. -/
theorem evalOps_isrEpilogue {c : Cpu} {m : Mem} {edi esi ebp esp ebx edx ecx eax : Word}
    (h : m.readWords c.esp 8 = [edi, esi, ebp, esp, ebx, edx, ecx, eax])
    (hif : c.eflags &&& Eflags.intr = 0) :
    evalOps [.popa, .sti] c m
      = ({ c with
            eax, ecx, edx, ebx, ebp, esi, edi, esp := c.esp + 32
            eflags := c.eflags ||| Eflags.intr, shadow := true }, m) := by
  have hoff : c.eflags.getLsbD 9 = false := Cpu.intrFlag_eq_false hif
  have hp : { c with shadow := false }.popa m = _ := Cpu.popa_eq h
  simp only [evalOps_cons, evalOps_nil, Op.eval, hp, Cpu.sti, Cpu.intrFlag, hoff, Bool.not_false]

end Machine

end SecOS
