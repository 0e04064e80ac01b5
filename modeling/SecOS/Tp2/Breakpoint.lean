-- SUMMARY: The breakpoint handler of tp2, which is a C function: it prints where it was called from, and nobody else notices.
import SecOS.Base.Lts
import SecOS.Exam.Gates
import SecOS.Exam.Machine
import SecOS.Kernel.Debug
import SecOS.Kernel.Panic
import SecOS.X86.Flat

/-!
# Breakpoint

tp2 makes a C function the handler of vector 3. The compiler gives it a frame, `pusha` comes
below that, and `popa; leave; iret` takes both away again, so the code with `int3` in it goes on
as if the instruction were not there.
-/

namespace SecOS

open X86

namespace Tp2

/-- What the compiler and the linker settle. -/
structure Image where
  bpHandler : Word
  /-- The call of `debug` in it. -/
  site : CallSite
  /-- Bytes between the saved frame pointer and the registers. -/
  frame : Nat
  /-- How far below the frame pointer `eip` lies. -/
  slot : Nat
  slot_ge : 4 ≤ slot
  slot_le : slot ≤ frame
  frame_le : frame ≤ 0x100

section Code

variable (img : Image)

def bpVector : Nat := 3

/-! ## tp -/

/-- What a breakpoint meets: a call of `debug`, and what the C code leaves behind. -/
structure Call where
  wait : Wait
  left : Scratch

/-- The compiler's prologue with its frame, and `pusha`. -/
def bpPrologue : List Op :=
  [.push .ebp, .mov .ebp .esp, .subEsp (BitVec.ofNat 32 img.frame), .pusha]

def bpHandler (c : Call) (s : Flat) : Option (Flat × List IoEvent) := do
  let (cpu, mem) := evalOps (bpPrologue img) s.cpu s.mem
  if !s.gdt.dataUsable cpu.ds then none else
  let eip := mem.read32 (cpu.ebp + 4)
  let mem := mem.write32 (cpu.ebp - BitVec.ofNat 32 img.slot) eip
  let (mem, out) ← debug img.site "EIP = %x\n" eip cpu.esp c.wait mem
  let mem := mem.blit (cpu.esp - BitVec.ofNat 32 img.site.cDepth) img.site.cDepth c.left.stack
  let (cpu, mem) := evalOps [.popa, .leave]
    { cpu with
      eax := c.left.eax, ecx := c.left.ecx, edx := c.left.edx
      eflags := Eflags.blend cpu.eflags c.left.flags Eflags.status } mem
  let s ← Flat.iret { s with cpu, mem }
  return (s, out)

/-- `int3`, which is one byte long, and its handler. -/
def int3 (c : Call) (s : Flat) : Option (Flat × List IoEvent) := do
  let s ← s.softInt 3 1
  if s.cpu.eip ≠ img.bpHandler then none else
  bpHandler img c s

end Code

/-! ## The gate -/

variable {img : Image} {s : Flat} {b : Word} {m m' : Mem} {c : Call} {out : List IoEvent}

/-- The frame of the processor, and the frame pointer that the compiler saves. -/
def bpFrame (c : Cpu) : List Word := [c.eflags, c.cs.setWidth 32, c.eip + 1, c.ebp]

/-- The frame pointer of the handler, and the stack pointer in its frame. -/
def bpEbp (esp : Word) : Word := Mem.below esp 4

def bpEsp (img : Image) (esp : Word) : Word := bpEbp esp - BitVec.ofNat 32 img.frame

/-- The registers as `pusha` finds them. -/
def bpCpu (img : Image) (c : Cpu) : Cpu :=
  { c with ebp := bpEbp c.esp, esp := bpEsp img c.esp }

/-- Bytes below the stack pointer that a breakpoint overwrites. -/
def stackDepth (img : Image) : Nat := 48 + img.frame + img.site.cDepth

def Scratched (img : Image) (esp b : Word) : Prop :=
  Within (esp - BitVec.ofNat 32 (stackDepth img)) (stackDepth img) b ∨
    Within img.site.vprintBuffer sizeofVprintBuffer b

/-- Where compiled code writes, below the registers that `pusha` saves, and the variable of the
handler. -/
def Spent (img : Image) (esp b : Word) : Prop :=
  Within (Mem.below (bpEsp img esp) 8 - BitVec.ofNat 32 img.site.cDepth) img.site.cDepth b ∨
    Within img.site.vprintBuffer sizeofVprintBuffer b ∨
    Within (bpEbp esp - BitVec.ofNat 32 img.slot) 4 b

/-- The bytes of the descriptor tables. -/
def InTables (s : Flat) (b : Word) : Prop :=
  Within s.gdtr.base (s.gdtr.limit.toNat + 1) b ∨ Within s.idtr.base (s.idtr.limit.toNat + 1) b

/-- The kernel at level 0; what a breakpoint overwrites is not the descriptor tables, and
the stack is not the buffer. -/
structure Breakable (img : Image) (s : Flat) : Prop where
  cpl : s.cpu.cpl = 0
  code : s.gdt.codeOk 0 c0Sel = true
  cs : s.gdt.codeOk 0 s.cpu.cs = true
  vm : s.cpu.eflags &&& Eflags.vm = 0
  ds : s.gdt.dataUsable s.cpu.ds = true
  tables : ∀ b, InTables s b → ¬ Scratched img s.cpu.esp b
  buffer : ∀ b, Within img.site.vprintBuffer sizeofVprintBuffer b →
    ¬ Within (s.cpu.esp - BitVec.ofNat 32 (stackDepth img)) (stackDepth img) b

/-- The machine when the prologue is over. -/
def atBpHandler (img : Image) (s : Flat) : Flat :=
  { s with
    cpu := { s.cpu with
      eip := img.bpHandler, cs := c0Sel, eflags := s.cpu.eflags &&& ~~~Eflags.gateClear
      ebp := bpEbp s.cpu.esp, esp := Mem.below (bpEsp img s.cpu.esp) 8, shadow := false }
    mem := (s.mem.pushWords s.cpu.esp (bpFrame s.cpu)).pushWords (bpEsp img s.cpu.esp)
      ((bpCpu img s.cpu).gprs) }

/-- The machine at the entry of the handler. -/
def bpEntered (img : Image) (s : Flat) : Flat :=
  { s with
    cpu := { s.cpu with
      eip := img.bpHandler, cs := c0Sel, eflags := s.cpu.eflags &&& ~~~Eflags.gateClear
      esp := Mem.below s.cpu.esp 3, shadow := false }
    mem := s.mem.pushWords s.cpu.esp [s.cpu.eflags, s.cpu.cs.setWidth 32, s.cpu.eip + 1] }

theorem softInt_eq (h : Breakable img s) {g : Desc} (hg : s.idt[bpVector]? = some g)
    (hgate : GateTo g img.bpHandler 0) : s.softInt 3 1 = some (bpEntered img s) := by
  have hlevel : ¬ g.dpl.ult s.cpu.cpl = true := by
    rw [hgate.dpl, h.cpl]
    decide
  have hsel : g.gateSelector &&& ~~~3 = c0Sel := by rw [hgate.selector]; decide
  have hint := Flat.interrupt_inner (s := { s with cpu := { s.cpu with eip := s.cpu.eip + 1 } })
    hg hgate.present hgate.type (by rw [hsel]; exact h.code) h.cpl
  rw [Flat.softInt_eq hg hlevel]
  refine hint.trans ?_
  rw [hsel, hgate.offset, bpEntered]

theorem evalOps_bpPrologue (img : Image) (s : Flat) :
    evalOps (bpPrologue img) (bpEntered img s).cpu (bpEntered img s).mem
      = ((atBpHandler img s).cpu, (atBpHandler img s).mem) := by
  have hesp : Mem.below s.cpu.esp 3 - 4 = bpEbp s.cpu.esp := Mem.below_below s.cpu.esp 3 1
  have hfour : s.cpu.esp - 4 - 4 - 4 - 4 = bpEbp s.cpu.esp := by
    simp only [bpEbp, Mem.below]
    bv_omega
  simp only [bpPrologue, evalOps_cons, evalOps_nil, Op.eval, Cpu.get, Cpu.set, bpEntered,
    atBpHandler, bpFrame, Mem.pushWords, bpCpu, Cpu.gprs, bpEsp, hesp, hfour]

/-- What the handler returns with is where it has been saved. -/
structure Saved (img : Image) (s : Flat) (m : Mem) : Prop where
  gprs : m.readWords (Mem.below (bpEsp img s.cpu.esp) 8) 8 = (bpCpu img s.cpu).gprs.reverse
  frame : m.readWords (bpEbp s.cpu.esp) 4 = (bpFrame s.cpu).reverse
  kept : ∀ b, ¬ Scratched img s.cpu.esp b → m b = s.mem b

/-- The addresses, counted down from the stack pointer at the breakpoint. -/
theorem below_bpEsp (img : Image) (esp : Word) :
    Mem.below (bpEsp img esp) 8 = esp - BitVec.ofNat 32 (48 + img.frame) := by
  have hframe := img.frame_le
  simp only [bpEsp, bpEbp, Mem.below]
  bv_omega

theorem below_bpEsp_sub (img : Image) (esp : Word) :
    Mem.below (bpEsp img esp) 8 - BitVec.ofNat 32 img.site.cDepth
      = esp - BitVec.ofNat 32 (stackDepth img) := by
  have hframe := img.frame_le
  have hdepth := img.site.cDepth_le
  rw [below_bpEsp, stackDepth, sub_sub, ← BitVec.ofNat_add]

theorem bpEbp_eq (esp : Word) : bpEbp esp = esp - BitVec.ofNat 32 16 := rfl

theorem bpEbp_sub (img : Image) (esp : Word) :
    bpEbp esp - BitVec.ofNat 32 img.slot = esp - BitVec.ofNat 32 (16 + img.slot) := by
  rw [bpEbp_eq, sub_sub, ← BitVec.ofNat_add]

theorem below_four (esp : Word) : Mem.below esp 4 = esp - BitVec.ofNat 32 16 := rfl

theorem length_gprs (c : Cpu) : c.gprs.length = 8 := rfl

theorem length_bpFrame (c : Cpu) : (bpFrame c).length = 4 := rfl

theorem saved_atBpHandler (img : Image) (s : Flat) : Saved img s (atBpHandler img s).mem := by
  have hframe := img.frame_le
  have hdepth := img.site.cDepth_le
  have hgprs := length_gprs (bpCpu img s.cpu)
  have hlen := length_bpFrame s.cpu
  refine ⟨?_, ?_, fun b hb => ?_⟩
  · exact Mem.readWords_pushWords _ _ (bpCpu img s.cpu).gprs (by rw [hgprs]; decide)
  · have hread := Mem.readWords_pushWords s.mem s.cpu.esp (bpFrame s.cpu) (by rw [hlen]; decide)
    refine Eq.trans (Mem.readWords_congr (by decide) fun b hb => ?_) hread
    refine Mem.pushWords_not_within ?_ (by rw [hgprs]; decide)
    rw [bpEbp_eq, within_sub_iff] at hb
    rw [hgprs, below_bpEsp, within_sub_iff]
    omega
  · have hout := mt Or.inl hb
    rw [within_sub_iff, stackDepth] at hout
    refine (Mem.pushWords_not_within ?_ (by rw [hgprs]; decide)).trans
      (Mem.pushWords_not_within ?_ (by rw [hlen]; decide))
    · rw [hgprs, below_bpEsp, within_sub_iff]
      omega
    · rw [hlen, below_four, within_sub_iff]
      omega

/-- Neither the registers nor the frame is where compiled code writes. -/
theorem Saved.congr (h : Saved img s m) (hs : Breakable img s)
    (hm : ∀ b, ¬ Spent img s.cpu.esp b → m' b = m b) : Saved img s m' := by
  have hge := img.slot_ge
  have hslot := img.slot_le
  have hframe := img.frame_le
  have hdepth := img.site.cDepth_le
  have hspent {b : Word} (hin : Within (Mem.below (bpEsp img s.cpu.esp) 8) 32 b ∨
      Within (bpEbp s.cpu.esp) 16 b) : ¬ Spent img s.cpu.esp b := by
    rw [below_bpEsp, bpEbp_eq, within_sub_iff, within_sub_iff] at hin
    rintro (hlow | hbuf | hvar)
    · rw [below_bpEsp_sub, within_sub_iff, stackDepth] at hlow
      omega
    · have hout := hs.buffer b hbuf
      rw [within_sub_iff, stackDepth] at hout
      omega
    · rw [bpEbp_sub, within_sub_iff] at hvar
      omega
  refine ⟨(Mem.readWords_congr (by decide) fun b hb => hm b (hspent (.inl hb))).trans h.gprs,
    (Mem.readWords_congr (by decide) fun b hb => hm b (hspent (.inr hb))).trans h.frame,
    fun b hb => (hm b fun hin => hb ?_).trans (h.kept b hb)⟩
  rw [Scratched, within_sub_iff, stackDepth]
  rcases hin with hlow | hbuf | hvar
  · rw [below_bpEsp_sub, within_sub_iff, stackDepth] at hlow
    omega
  · exact .inr hbuf
  · rw [bpEbp_sub, within_sub_iff] at hvar
    omega

/-- The registers when `debug` has returned. -/
def bpLeft (img : Image) (s : Flat) (l : Scratch) : Cpu :=
  { (atBpHandler img s).cpu with
    eax := l.eax, ecx := l.ecx, edx := l.edx
    eflags := Eflags.blend (atBpHandler img s).cpu.eflags l.flags Eflags.status }

/-- The registers at the next instruction. -/
def resumed (c : Cpu) : Cpu := { c with eip := c.eip + 1, shadow := false }

/-- At the `iret`. -/
def bpIret (img : Image) (s : Flat) (l : Scratch) : Cpu :=
  { s.cpu with
    esp := bpEbp s.cpu.esp + 4, eip := img.bpHandler, cs := c0Sel, shadow := false
    eflags := Eflags.blend (s.cpu.eflags &&& ~~~Eflags.gateClear) l.flags Eflags.status }

theorem Saved.words (h : Saved img s m) :
    m.read32 (bpEbp s.cpu.esp) = s.cpu.ebp ∧ m.readWords (bpEbp s.cpu.esp + 4) 3
      = [s.cpu.eip + 1, s.cpu.cs.setWidth 32, s.cpu.eflags] :=
  List.cons.inj h.frame

theorem Saved.evalOps_epilogue (h : Saved img s m) (l : Scratch) :
    evalOps [.popa, .leave] (bpLeft img s l) m = (bpIret img s l, m) := by
  have hpopa := Cpu.popa_eq (c := { bpLeft img s l with shadow := false }) h.gprs
  simp only [evalOps_cons, evalOps_nil, Op.eval, hpopa]
  simp only [bpCpu, h.words.1]
  rfl

theorem Breakable.gdt_eq (h : Breakable img s)
    (hm : ∀ b, ¬ Scratched img s.cpu.esp b → m b = s.mem b) : s.gdtr.table m = s.gdt :=
  table_congr fun b hb => hm b (h.tables b (.inl hb))

theorem Saved.iret_eq (h : Saved img s m) (hs : Breakable img s) (l : Scratch) :
    Flat.iret { s with cpu := bpIret img s l, mem := m }
      = some { s with cpu := resumed s.cpu, mem := m } := by
  have hnt : (bpIret img s l).eflags &&& Eflags.nt = 0 :=
    (Eflags.blend_and _ _ (by decide)).trans (Eflags.and_not_and _ (by decide))
  have hcs : (s.cpu.cs.setWidth 32).setWidth 16 = s.cpu.cs := by
    rw [BitVec.setWidth_setWidth_of_le _ (by decide), BitVec.setWidth_eq]
  have hesp : bpEbp s.cpu.esp + 4 + 12 = s.cpu.esp := by
    rw [bpEbp_eq]
    bv_omega
  have hgdt : (Flat.gdt { s with cpu := bpIret img s l, mem := m }) = s.gdt := hs.gdt_eq h.kept
  have hiret := Cpu.iret_inner (g := s.gdt) (c := bpIret img s l) h.words.2 hnt hs.vm
    (by rw [hcs]; exact hs.cpl) (by rw [hcs]; exact hs.cs)
  unfold Flat.iret
  rw [hgdt]
  simp only [hiret, Option.bind_eq_bind, Option.bind_some, hcs]
  simp only [bpIret, hesp, resumed]
  rfl

theorem gdt_bpEntered (h : Breakable img s) : (bpEntered img s).gdt = s.gdt := by
  refine h.gdt_eq fun b hb => ?_
  have hlen : [s.cpu.eflags, s.cpu.cs.setWidth 32, s.cpu.eip + 1].length = 3 := rfl
  have hout := mt Or.inl hb
  rw [within_sub_iff, stackDepth] at hout
  refine Mem.pushWords_not_within ?_ (by rw [hlen]; decide)
  rw [hlen, Mem.below, within_sub_iff]
  omega

/-- Memory when `debug` is called. -/
def bpMem (img : Image) (s : Flat) : Mem :=
  (atBpHandler img s).mem.write32 (bpEbp s.cpu.esp - BitVec.ofNat 32 img.slot) (s.cpu.eip + 1)

theorem bpHandler_eq (h : Breakable img s) (c : Call) :
    bpHandler img c (bpEntered img s) = (debug img.site "EIP = %x\n" (s.cpu.eip + 1)
        (Mem.below (bpEsp img s.cpu.esp) 8) c.wait (bpMem img s)).bind fun r => do
      let mem := r.1.blit (Mem.below (bpEsp img s.cpu.esp) 8 - BitVec.ofNat 32 img.site.cDepth)
        img.site.cDepth c.left.stack
      let p := evalOps [.popa, .leave] (bpLeft img s c.left) mem
      let t ← Flat.iret { s with cpu := p.1, mem := p.2 }
      return (t, r.2) := by
  have hds : s.gdt.dataUsable (atBpHandler img s).cpu.ds = true := h.ds
  have hread : (atBpHandler img s).mem.read32 ((atBpHandler img s).cpu.ebp + 4) = s.cpu.eip + 1 :=
    (List.cons.inj (saved_atBpHandler img s).words.2).1
  unfold bpHandler
  rw [evalOps_bpPrologue]
  simp only [gdt_bpEntered h, hds, hread, Bool.not_true, Bool.false_eq_true, if_false]
  rfl

/-- What the handler prints. -/
def eipText (eip : Word) : List Byte :=
  "EIP = ".toList.map chr ++ numeralText 16 eip.toNat ++ [chr '\n']

theorem splitFormat_eip :
    splitFormat ("EIP = %x\n".toList.map chr)
      = some (("EIP = ".toList.map chr).map .literal
          ++ [.conversion [] .x, .literal (chr '\n')], none) := by
  decide +kernel

theorem render_eip (p eip : Word) (hp : m.read32 p = eip) :
    Conv.render m p (sizeAfter []) .x = numeralText 16 eip.toNat := by
  have harg : Conv.argText .x (.word eip) = some (numeralText 16 eip.toNat) := rfl
  exact (render_of_argText (m := m) (p := p) harg hp).1

theorem length_eipText_le (eip : Word) : (eipText eip).length ≤ 1023 := by
  have hnum := length_numeralText_le (b := 16) (n := eip.toNat) (k := 8) (by decide) (by decide)
    eip.isLt
  have hhead : ("EIP = ".toList.map chr).length = 6 := by decide +kernel
  unfold eipText
  simp only [List.length_append, hhead, List.length_cons, List.length_nil]
  omega

theorem take_eip (p eip : Word) (hp : m.read32 p = eip) :
    (renderAll m p (("EIP = ".toList.map chr).map .literal
        ++ [.conversion [] .x, .literal (chr '\n')])).take 1023 = eipText eip := by
  have htext : renderAll m p (("EIP = ".toList.map chr).map .literal
      ++ [.conversion [] .x, .literal (chr '\n')]) = eipText eip := by
    rw [renderAll_literals, renderAll, renderAll, renderAll, Directive.render, Directive.render,
      render_eip p eip hp]
    unfold eipText
    rw [List.append_assoc, List.append_nil]
  rw [htext, List.take_of_length_le (length_eipText_le eip)]

/-- The code with the breakpoint in it goes on with registers and memory as they were. -/
structure Transparent (img : Image) (s t : Flat) (out : List IoEvent) : Prop where
  same : t = { s with cpu := resumed s.cpu, mem := t.mem }
  kept : ∀ b, ¬ Scratched img s.cpu.esp b → t.mem b = s.mem b
  said : written (serialTx serialCom1) out = eipText (s.cpu.eip + 1)
  polled : Polled serialCom1 out

section Breakpoint

variable {g : Desc}

theorem int3_eq (h : Breakable img s) (hg : s.idt[bpVector]? = some g)
    (hgate : GateTo g img.bpHandler 0) (c : Call) :
    int3 img c s = bpHandler img c (bpEntered img s) := by
  unfold int3
  rw [softInt_eq h hg hgate]
  exact if_neg (not_not_intro rfl)

/-- Compiled code leaves the registers and the frame where they are. -/
theorem saved_left (h : Breakable img s) (l : Scratch) (hdebug : debug img.site "EIP = %x\n"
      (s.cpu.eip + 1) (Mem.below (bpEsp img s.cpu.esp) 8) c.wait (bpMem img s) = some (m, out)) :
    Saved img s (m.blit (Mem.below (bpEsp img s.cpu.esp) 8 - BitVec.ofNat 32 img.site.cDepth)
      img.site.cDepth l.stack) := by
  obtain ⟨-, -, hout⟩ := debug_of_eq_some splitFormat_eip hdebug
  refine (saved_atBpHandler img s).congr h fun b hb => ?_
  simp only [Spent, not_or] at hb
  rw [Mem.blit_not_within hb.1, hout b ⟨hb.1, hb.2.1⟩, bpMem, Mem.write32_not_within hb.2.2]

theorem transparent_int3 (h : Breakable img s) (hg : s.idt[bpVector]? = some g)
    (hgate : GateTo g img.bpHandler 0) (hint : int3 img c s = some (t, out)) :
    Transparent img s t out := by
  rw [int3_eq h hg hgate, bpHandler_eq h] at hint
  obtain ⟨⟨m₁, out₁⟩, hdebug, hret⟩ := Option.bind_eq_some_iff.mp hint
  obtain ⟨hwritten, hpolled, -⟩ := debug_of_eq_some splitFormat_eip hdebug
  have hsaved := saved_left h c.left hdebug
  simp only [hsaved.evalOps_epilogue, hsaved.iret_eq h, Option.bind_eq_bind,
    Option.bind_some] at hret
  obtain ⟨rfl, rfl⟩ := Prod.mk.inj (Option.some.inj hret)
  exact ⟨rfl, hsaved.kept, hwritten.trans (take_eip _ _ (read32_debugMem ..)), hpolled⟩

/-- Memory matters to this only where the tables are. -/
theorem Breakable.congr (h : Breakable img s) (hm : ∀ b, InTables s b → m b = s.mem b) :
    Breakable img { s with mem := m } ∧ Flat.idt { s with mem := m } = s.idt := by
  have hgdt : Flat.gdt { s with mem := m } = s.gdt := table_congr fun b hb => hm b (.inl hb)
  refine ⟨⟨h.cpl, ?_, ?_, h.vm, ?_, h.tables, h.buffer⟩,
    table_congr fun b hb => hm b (.inr hb)⟩
  all_goals rw [hgdt]
  · exact h.code
  · exact h.cs
  · exact h.ds

end Breakpoint

/-! ## Runs -/

/-- A breakpoint, or code of the kernel; what that code prints itself is left out. `dirt` says
where memory may have another content behind it because of the breakpoints before. -/
inductive Event where
  | int3 (c : Call)
  | code (f : Cpu → Mem → Cpu × Mem) (dirt : Word → Prop)

def runCode (f : Cpu → Mem → Cpu × Mem) (s : Flat) : Flat :=
  { s with cpu := (f s.cpu s.mem).1, mem := (f s.cpu s.mem).2 }

/-- The machine and the line. -/
structure Sys where
  machine : Flat
  io : List IoEvent

def step (img : Image) (x : Sys) : Event → Option Sys
  | .int3 c => do
    let (machine, out) ← int3 img c x.machine
    return { machine, io := x.io ++ out }
  | .code f _ => some { x with machine := runCode f x.machine }

/-- The same run, as if `int3` were an instruction that prints where it ends. -/
structure View where
  machine : Flat
  /-- Where the other one may differ. -/
  dirt : Word → Prop
  said : List Byte

def View.start (s : Flat) : View := ⟨s, fun _ => False, []⟩

def View.after (img : Image) (v : View) : Event → View
  | .int3 _ =>
    { machine := { v.machine with cpu := resumed v.machine.cpu }
      dirt := fun b => v.dirt b ∨ Scratched img v.machine.cpu.esp b
      said := v.said ++ eipText (v.machine.cpu.eip + 1) }
  | .code f dirt => { v with machine := runCode f v.machine, dirt }

/-- What breakpoints may have overwritten does not get into registers, nor elsewhere; the kernel
leaves the gates alone and stays where it can be stopped. -/
structure Blind (img : Image) (v : View) (f : Cpu → Mem → Cpu × Mem) (dirt : Word → Prop) :
    Prop where
  cpu : ∀ m, (∀ b, ¬ v.dirt b → m b = v.machine.mem b) →
    (f v.machine.cpu m).1 = (f v.machine.cpu v.machine.mem).1
  mem : ∀ m, (∀ b, ¬ v.dirt b → m b = v.machine.mem b) → ∀ b, ¬ dirt b →
    (f v.machine.cpu m).2 b = (f v.machine.cpu v.machine.mem).2 b
  tables : ∀ b, dirt b → ¬ InTables v.machine b
  breakable : Breakable img (runCode f v.machine)
  idt : (runCode f v.machine).idt = v.machine.idt

def Permitted (img : Image) : View → List Event → Prop
  | _, [] => True
  | v, .int3 c :: es => Permitted img (v.after img (.int3 c)) es
  | v, .code f dirt :: es => Blind img v f dirt ∧ Permitted img (v.after img (.code f dirt)) es

structure Shows (img : Image) (gates : List Desc) (x : Sys) (v : View) : Prop where
  breakable : Breakable img v.machine
  idt : v.machine.idt = gates
  tables : ∀ b, v.dirt b → ¬ InTables v.machine b
  same : x.machine = { v.machine with mem := x.machine.mem }
  kept : ∀ b, ¬ v.dirt b → x.machine.mem b = v.machine.mem b
  said : written (serialTx serialCom1) x.io = v.said
  polled : Polled serialCom1 x.io

section Runs

variable {gates : List Desc} {g : Desc} {x x' : Sys} {v : View} {es : List Event}
variable {f : Cpu → Mem → Cpu × Mem} {dirt : Word → Prop}

/-- The machine itself can be stopped as well. -/
theorem Shows.machine (h : Shows img gates x v) :
    Breakable img x.machine ∧ x.machine.idt = gates := by
  have hcongr := h.breakable.congr fun b hb => h.kept b fun hdirt => h.tables b hdirt hb
  rw [h.same, ← h.idt]
  exact hcongr

theorem Shows.int3 (h : Shows img gates x v) (hg : gates[bpVector]? = some g)
    (hgate : GateTo g img.bpHandler 0) (hint : int3 img c x.machine = some (t, out)) :
    Shows img gates ⟨t, x.io ++ out⟩ (v.after img (.int3 c)) := by
  obtain ⟨hbreakable, hidt⟩ := h.machine
  have htrans := transparent_int3 hbreakable (by rw [hidt, hg]) hgate hint
  have hcpu : x.machine.cpu = v.machine.cpu := by rw [h.same]
  refine ⟨⟨h.breakable.cpl, h.breakable.code, h.breakable.cs, h.breakable.vm, h.breakable.ds,
    h.breakable.tables, h.breakable.buffer⟩, h.idt, ?_, ?_, fun b hb => ?_, ?_,
    h.polled.append htrans.polled⟩
  · rintro b (hdirt | hscratched) hb
    · exact h.tables b hdirt hb
    · exact h.breakable.tables b hb hscratched
  · refine htrans.same.trans ?_
    rw [h.same]
    rfl
  · rw [View.after, not_or, ← hcpu] at hb
    exact (htrans.kept b hb.2).trans (h.kept b hb.1)
  · rw [written_append, h.said, htrans.said, hcpu]
    rfl

theorem Shows.code (h : Shows img gates x v) (hblind : Blind img v f dirt) :
    Shows img gates ⟨runCode f x.machine, x.io⟩ (v.after img (.code f dirt)) := by
  have hcpu : x.machine.cpu = v.machine.cpu := by rw [h.same]
  refine ⟨hblind.breakable, hblind.idt.trans h.idt, hblind.tables, ?_, fun b hb => ?_, h.said,
    h.polled⟩
  · have hregs := hblind.cpu x.machine.mem h.kept
    simp only [View.after, runCode, hcpu, hregs]
    rw [h.same]
  · have hmem := hblind.mem x.machine.mem h.kept b hb
    simp only [View.after, runCode, hcpu, hmem]

theorem Shows.run (h : Shows img gates x v) (hg : gates[bpVector]? = some g)
    (hgate : GateTo g img.bpHandler 0) (hok : Permitted img v es)
    (hrun : Lts.run (step img) x es = some x') :
    Shows img gates x' (es.foldl (View.after img) v) := by
  induction es generalizing x v with
  | nil =>
    obtain rfl := Lts.run_nil.mp hrun
    exact h
  | cons e es ih =>
    obtain ⟨y, hstep, hrest⟩ := Lts.run_cons.mp hrun
    cases e with
    | int3 c =>
      obtain ⟨⟨t, out⟩, hint, hret⟩ := Option.bind_eq_some_iff.mp hstep
      obtain rfl := Option.some.inj hret
      exact ih (h.int3 hg hgate hint) hok hrest
    | code f dirt =>
      obtain rfl := Option.some.inj hstep
      exact ih (h.code hok.1) hok.2 hrest

end Runs

/-! ## A sample -/

def sampleImage : Image where
  bpHandler := 0x303100
  site :=
    { vprintBuffer := 0x30b000, cDepth := 0x200, debugArg := 0xc
      debugArg_ge := by decide, debugArg_le := by decide, cDepth_le := by decide }
  frame := 0x18
  slot := 0xc
  slot_ge := by decide
  slot_le := by decide
  frame_le := by decide

def sampleGdt : Gdt := [0, gdtFlatDsc 0 segDescCodeXr, gdtFlatDsc 0 segDescDataRw]

/-- Zero but for the tables. -/
@[irreducible] def sampleMem : Mem :=
  storeDescs 0x306000 (storeDescs 0x30a000 (fun _ => 0) 0 (intrInit 0x302010)) 0 sampleGdt

/-- `mov $0, %eax` -/
def movEax (c : Cpu) (m : Mem) : Cpu × Mem := ({ c with eax := 0, eip := c.eip + 5 }, m)

def sampleCall : Call := ⟨sampleWait, ⟨1, 2, 3, 4, 5, 6, 7, 8, fun _ => 9⟩⟩

/-- A breakpoint, the instruction behind it, and another breakpoint. -/
def sampleEvents : List Event :=
  [.int3 sampleCall, .code movEax (Scratched sampleImage 0x301fe0), .int3 sampleCall]

end Tp2

end SecOS
