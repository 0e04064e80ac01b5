-- SUMMARY: How the labs enter level 3 on their own descriptor table, and what a privileged instruction does there.
import SecOS.Base.Lts
import SecOS.Exam.Isr
import SecOS.Kernel.Stack
import SecOS.Tp1.Gdt
import SecOS.X86.Flat

/-!
# Level 3 in the labs

`tp` builds the six descriptors that the exam has too, names a stack for level 0 in the
task state segment, pushes a frame by hand and returns through it. Paging is off, so the
code it returns to reaches everything; here it is followed as long as it leaves the
descriptor tables, the task state segment and the kernel's code alone.
-/

namespace SecOS

open X86

namespace Tp3

/-! ## Image -/

def sizeofGdt : Nat := 48
def sizeofIdt : Nat := 2048
def sizeofStack : Nat := 0x2000

/-- What the compiler and the linker settle. -/
structure Image where
  gdt : Word
  tss : Word
  idt : Word
  idtTrampoline : Word
  userland : Word
  /-- The kernel's code and constants. -/
  text : Word
  textSize : Nat
  /-- The lowest byte of `.stack`. -/
  stack : Word
  /-- Bytes that `tp` takes below its saved frame pointer. -/
  frame : Nat
  /-- Bytes below the stack pointer of its caller that compiled code may overwrite. -/
  cDepth : Nat
  depth_le : frame + cDepth ≤ 0x800
  gdt_idt : ∀ b, Within gdt sizeofGdt b → ¬ Within idt sizeofIdt b
  gdt_tss : ∀ b, Within gdt sizeofGdt b → ¬ Within tss sizeofTss b
  idt_tss : ∀ b, Within idt sizeofIdt b → ¬ Within tss sizeofTss b
  stack_gdt : ∀ b, Within stack sizeofStack b → ¬ Within gdt sizeofGdt b
  stack_idt : ∀ b, Within stack sizeofStack b → ¬ Within idt sizeofIdt b
  stack_tss : ∀ b, Within stack sizeofStack b → ¬ Within tss sizeofTss b
  stack_text : ∀ b, Within stack sizeofStack b → ¬ Within text textSize b

variable (img : Image)

/-- A byte of a descriptor table or of the task state segment. -/
def Image.Tabled (b : Word) : Prop :=
  Within img.gdt sizeofGdt b ∨ Within img.idt sizeofIdt b ∨ Within img.tss sizeofTss b

/-- A byte that the kernel relies on: of a table, or of its own code. -/
def Image.Kept (b : Word) : Prop := img.Tabled b ∨ Within img.text img.textSize b

def Image.gdtr : TableReg := ⟨img.gdt, BitVec.ofNat 16 (sizeofGdt - 1)⟩

def Image.idtr : TableReg := ⟨img.idt, BitVec.ofNat 16 (sizeofIdt - 1)⟩

/-! ## tp -/

/-- `set_ds`, `set_es`, `set_fs` and `set_gs` with one selector. -/
def setDataSegs (s : Flat) (sel : Sel) : Option Flat :=
  if s.gdt.dataOk 0 sel then
    some { s with cpu := { s.cpu with ds := sel, es := sel, fs := sel, gs := sel } }
  else none

def initGdt (s : Flat) : Option Flat :=
  let s := { s with mem := s.mem.write64 (descAddr img.gdt 0) 0 }
  let s := { s with mem := s.mem.write64 (descAddr img.gdt 1) (gdtFlatDsc 0 segDescCodeXr) }
  let s := { s with mem := s.mem.write64 (descAddr img.gdt 2) (gdtFlatDsc 0 segDescDataRw) }
  let s := { s with mem := s.mem.write64 (descAddr img.gdt 3) (gdtFlatDsc 3 segDescCodeXr) }
  let s := { s with mem := s.mem.write64 (descAddr img.gdt 4) (gdtFlatDsc 3 segDescDataRw) }
  let s := { s with gdtr := img.gdtr }
  if s.gdt.codeOk 0 c0Sel && s.gdt.stackOk 0 d0Sel then
    setDataSegs { s with cpu := { s.cpu with cs := c0Sel, ss := d0Sel } } d0Sel
  else none

/-- The frame that the compiler makes, and what the code in it leaves on the stack. -/
def openFrame (σ : Scratch) (s : Flat) : Flat :=
  let (cpu, mem) := evalOps [.push .ebp, .mov .ebp .esp, .subEsp (BitVec.ofNat 32 img.frame)]
    s.cpu s.mem
  { s with
    cpu
    mem := mem.blit (cpu.esp - BitVec.ofNat 32 img.cDepth) (img.cDepth + img.frame) σ.stack }

/-- The stack for level 0 is that of `tp` itself. -/
def installTss (s : Flat) : Option Flat :=
  let s := { s with mem := s.mem.write32 (img.tss + 4) s.cpu.ebp }
  let s := { s with mem := s.mem.write16 (img.tss + 8) d0Sel }
  let s := { s with mem := s.mem.write64 (descAddr img.gdt 5) (createTssDsc img.tss) }
  s.ltr tsSel

/-- What is pushed as the stack pointer for level 3. -/
inductive UserStack where
  | ebp
  | at (a : Word)

namespace UserStack

def push : UserStack → Op
  | ebp => .push .ebp
  | .at a => .pushi a

def value (u : UserStack) (ebp : Word) : Word :=
  match u with
  | .ebp => ebp
  | .at a => a

end UserStack

/-- The `asm` statement at the end, with the address of `userland` in the register that the
compiler has chosen. -/
def enterRing3 (u : UserStack) (σ : Scratch) (s : Flat) : Option Flat :=
  let cpu := { s.cpu with
    ecx := σ.ecx, edx := σ.edx, ebx := σ.ebx, esi := σ.esi, edi := σ.edi
    eflags := Eflags.blend s.cpu.eflags σ.flags Eflags.status }
  let (cpu, mem) := evalOps
    [.movi .eax img.userland, .pushi (d3Sel.setWidth 32), u.push, .pushf,
      .pushi (c3Sel.setWidth 32), .push .eax] cpu s.mem
  Flat.iret { s with cpu, mem }

/-- What the labs have in common; the stack is where they differ. -/
def launch (u : UserStack) (σ : Scratch) (s : Flat) : Option Flat := do
  let s ← setDataSegs s d3Sel
  let s ← installTss img s
  enterRing3 img u σ s

def tp (σ : Scratch) (s : Flat) : Option Flat := do
  let s ← initGdt img (openFrame img σ s)
  launch img .ebp σ s

/-! ## Tables in memory -/

variable {img : Image} {σ : Scratch} {s s' s₀ s₁ : Flat} {gates : List Desc} {top b : Word}
variable {m m' : Mem}

/-- The table registers and the task register are loaded, and the tables hold what they
should. `top` is where the processor begins to push when it leaves level 3. -/
structure Installed (img : Image) (gates : List Desc) (top : Word) (s : Flat) : Prop where
  gdtr : s.gdtr = img.gdtr
  gdt : s.gdt = examGdt img.tss
  idtr : s.idtr = img.idtr
  idt : s.idt = gates
  tr : s.tr = img.tss
  esp0 : s.esp0 = top
  ss0 : s.ss0 = d0Sel

theorem gdt_congr (h : ∀ b, Within img.gdt sizeofGdt b → m' b = m b) :
    img.gdtr.table m' = img.gdtr.table m := table_congr h

theorem idt_congr (h : ∀ b, Within img.idt sizeofIdt b → m' b = m b) :
    img.idtr.table m' = img.idtr.table m := table_congr h

/-- What spares the tables leaves the machine configured. -/
theorem Installed.congr (h : Installed img gates top s) (hgdtr : s'.gdtr = s.gdtr)
    (hidtr : s'.idtr = s.idtr) (htr : s'.tr = s.tr)
    (hmem : ∀ b, img.Tabled b → s'.mem b = s.mem b) : Installed img gates top s' where
  gdtr := hgdtr.trans h.gdtr
  gdt := by
    rw [← h.gdt, Flat.gdt, Flat.gdt, hgdtr, h.gdtr]
    exact gdt_congr fun b hb => hmem b (.inl hb)
  idtr := hidtr.trans h.idtr
  idt := by
    rw [← h.idt, Flat.idt, Flat.idt, hidtr, h.idtr]
    exact idt_congr fun b hb => hmem b (.inr (.inl hb))
  tr := htr.trans h.tr
  esp0 := by
    rw [← h.esp0, Flat.esp0, Flat.esp0, htr, h.tr]
    refine Mem.read32_congr fun b hb => hmem b (.inr (.inr ?_))
    simp only [Within, sizeofTss, sizeofTssStack, sizeofTssMaps] at *
    bv_omega
  ss0 := by
    rw [← h.ss0, Flat.ss0, Flat.ss0, htr, h.tr]
    refine Mem.read16_congr fun b hb => hmem b (.inr (.inr ?_))
    simp only [Within, sizeofTss, sizeofTssStack, sizeofTssMaps] at *
    bv_omega

/-- The descriptors that `init_gdt` has written, and whatever is in the last place. -/
def flatGdt (d : Desc) : Gdt :=
  [0, gdtFlatDsc 0 segDescCodeXr, gdtFlatDsc 0 segDescDataRw, gdtFlatDsc 3 segDescCodeXr,
    gdtFlatDsc 3 segDescDataRw, d]

/-- Memory after the stores of `init_gdt`. -/
def initGdtMem (img : Image) (m : Mem) : Mem :=
  ((((m.write64 (descAddr img.gdt 0) 0).write64 (descAddr img.gdt 1)
    (gdtFlatDsc 0 segDescCodeXr)).write64 (descAddr img.gdt 2)
    (gdtFlatDsc 0 segDescDataRw)).write64 (descAddr img.gdt 3)
    (gdtFlatDsc 3 segDescCodeXr)).write64 (descAddr img.gdt 4) (gdtFlatDsc 3 segDescDataRw)

theorem limit_gdtr (img : Image) : img.gdtr.limit.toNat + 1 = 8 * 6 := by
  simp only [Image.gdtr]
  decide

theorem limit_idtr (img : Image) : img.idtr.limit.toNat + 1 = 8 * 256 := by
  simp only [Image.idtr]
  decide

/-- The table has six descriptors. -/
theorem table_gdtr (img : Image) (m : Mem) :
    img.gdtr.table m = (List.range 6).map fun i => m.read64 (descAddr img.gdt i) :=
  table_eq m (limit_gdtr img)

theorem table_initGdtMem (img : Image) (m : Mem) :
    img.gdtr.table (initGdtMem img m) = flatGdt (m.read64 (descAddr img.gdt 5)) := by
  have hbase : img.gdt = img.gdtr.base := rfl
  unfold initGdtMem
  rw [hbase]
  repeat rw [table_write64 (by decide)]
  rw [table_gdtr]
  rfl

theorem initGdtMem_not_within (h : ¬ Within img.gdt sizeofGdt b) : initGdtMem img m b = m b := by
  have hslot (i : Nat) (hi : i < 6) : ¬ Within (descAddr img.gdt i) 8 b := fun hb =>
    h (within_of_descAddr (n := 6) (by decide) hi hb)
  unfold initGdtMem
  rw [Mem.write64_not_within (hslot 4 (by decide)), Mem.write64_not_within (hslot 3 (by decide)),
    Mem.write64_not_within (hslot 2 (by decide)), Mem.write64_not_within (hslot 1 (by decide)),
    Mem.write64_not_within (hslot 0 (by decide))]

/-- `init_gdt` never faults. -/
theorem initGdt_eq (img : Image) (s : Flat) : initGdt img s = some { s with
    mem := initGdtMem img s.mem, gdtr := img.gdtr
    cpu := { s.cpu with
      cs := c0Sel, ss := d0Sel, ds := d0Sel, es := d0Sel, fs := d0Sel, gs := d0Sel } } := by
  have htable := table_initGdtMem img s.mem
  unfold initGdtMem at htable
  unfold initGdt setDataSegs Flat.gdt
  simp only [htable]
  rfl

/-- The stores of `installTss`, the descriptor marked as busy at the end. -/
def tssMem (img : Image) (ebp : Word) (m : Mem) : Mem :=
  (((m.write32 (img.tss + 4) ebp).write16 (img.tss + 8) d0Sel).write64 (descAddr img.gdt 5)
    (createTssDsc img.tss)).write64 (descAddr img.gdt 5) (setTr (createTssDsc img.tss))

theorem within_tss_esp (h : Within (img.tss + 4) 4 b) : Within img.tss sizeofTss b := by
  simp only [Within, sizeofTss, sizeofTssStack, sizeofTssMaps] at *
  bv_omega

theorem within_tss_ss (h : Within (img.tss + 8) 2 b) : Within img.tss sizeofTss b := by
  simp only [Within, sizeofTss, sizeofTssStack, sizeofTssMaps] at *
  bv_omega

theorem within_gdt_five (h : Within (descAddr img.gdt 5) 8 b) : Within img.gdt sizeofGdt b :=
  within_of_descAddr (n := 6) (by decide) (by decide) h

theorem tssMem_not_within {ebp : Word} (hgdt : ¬ Within img.gdt sizeofGdt b)
    (htss : ¬ Within img.tss sizeofTss b) : tssMem img ebp m b = m b := by
  have hslot : ¬ Within (descAddr img.gdt 5) 8 b := fun h => hgdt (within_gdt_five h)
  unfold tssMem
  rw [Mem.write64_not_within hslot, Mem.write64_not_within hslot,
    Mem.write16_not_within fun h => htss (within_tss_ss h),
    Mem.write32_not_within fun h => htss (within_tss_esp h)]

/-- The stores to the segment leave the table of descriptors as it is. -/
theorem table_tssFields (ebp : Word) (m : Mem) :
    img.gdtr.table ((m.write32 (img.tss + 4) ebp).write16 (img.tss + 8) d0Sel)
      = img.gdtr.table m := by
  refine gdt_congr fun b hb => ?_
  have hout := img.gdt_tss b hb
  rw [Mem.write16_not_within fun h => hout (within_tss_ss h),
    Mem.write32_not_within fun h => hout (within_tss_esp h)]

theorem set_flatGdt (d d' : Desc) : (flatGdt d).set 5 d' = flatGdt d' := rfl

theorem table_tssMem {d : Desc} (ebp : Word) (h : img.gdtr.table m = flatGdt d) :
    img.gdtr.table (tssMem img ebp m) = examGdt img.tss := by
  have hbase : img.gdt = img.gdtr.base := rfl
  unfold tssMem
  rw [hbase, table_write64 (by decide), table_write64 (by decide), table_tssFields, h, set_flatGdt,
    set_flatGdt]
  rfl

theorem read32_tssMem (ebp : Word) (m : Mem) :
    (tssMem img ebp m).read32 (img.tss + 4) = ebp := by
  have hslot {b : Word} (hb : Within img.tss sizeofTss b) : ¬ Within (descAddr img.gdt 5) 8 b :=
    fun h => img.gdt_tss b (within_gdt_five h) hb
  have hfields : (tssMem img ebp m).read32 (img.tss + 4)
      = (m.write32 (img.tss + 4) ebp).read32 (img.tss + 4) := by
    refine Mem.read32_congr fun b hb => ?_
    unfold tssMem
    rw [Mem.write64_not_within (hslot (within_tss_esp hb)),
      Mem.write64_not_within (hslot (within_tss_esp hb)),
      Mem.write16_not_within (by simp only [Within] at *; bv_omega)]
  rw [hfields, Mem.read32_write32]

theorem read16_tssMem (ebp : Word) (m : Mem) :
    (tssMem img ebp m).read16 (img.tss + 8) = d0Sel := by
  have hslot {b : Word} (hb : Within img.tss sizeofTss b) : ¬ Within (descAddr img.gdt 5) 8 b :=
    fun h => img.gdt_tss b (within_gdt_five h) hb
  have hfields : (tssMem img ebp m).read16 (img.tss + 8)
      = ((m.write32 (img.tss + 4) ebp).write16 (img.tss + 8) d0Sel).read16 (img.tss + 8) := by
    refine Mem.read16_congr fun b hb => ?_
    unfold tssMem
    rw [Mem.write64_not_within (hslot (within_tss_ss hb)),
      Mem.write64_not_within (hslot (within_tss_ss hb))]
  rw [hfields, Mem.read16_write16]

/-- The task register takes the descriptor that was just built. -/
theorem installTss_eq {d : Desc} (hgdtr : s.gdtr = img.gdtr) (hgdt : s.gdt = flatGdt d) :
    installTss img s = some { s with mem := tssMem img s.cpu.ebp s.mem, tr := img.tss } := by
  have hdsc := Tp1.decodes_createTssDsc img.tss
  have hbase : img.gdt = img.gdtr.base := rfl
  have htable : img.gdtr.table (((s.mem.write32 (img.tss + 4) s.cpu.ebp).write16 (img.tss + 8)
      d0Sel).write64 (descAddr img.gdt 5) (createTssDsc img.tss))
        = flatGdt (createTssDsc img.tss) := by
    rw [Flat.gdt, hgdtr] at hgdt
    rw [hbase, table_write64 (by decide), table_tssFields, hgdt, set_flatGdt]
  have hlookup : (flatGdt (createTssDsc img.tss)).lookup tsSel = some (createTssDsc img.tss) := rfl
  have htype : (createTssDsc img.tss).type = Flat.tssAvail := hdsc.type
  have hidx : tsSel.index.toNat = 5 := rfl
  unfold installTss Flat.ltr Flat.gdt
  simp only [hgdtr, htable, hlookup, Option.bind_eq_bind, Option.bind_some, hdsc.p, hdsc.s, htype,
    Bool.not_false, beq_self_eq_true, Bool.and_self, Bool.not_true, Bool.false_eq_true, if_false,
    hidx]
  rw [hdsc.base]
  rfl

/-! ## The way to level 3 -/

variable {u : UserStack}

/-- The registers when `userland` begins, `flags` being those that `pushf` has pushed. -/
def userCpu (img : Image) (u : UserStack) (σ : Scratch) (c : Cpu) : Cpu :=
  { c with
    eax := img.userland, ecx := σ.ecx, edx := σ.edx, ebx := σ.ebx, esi := σ.esi, edi := σ.edi
    esp := u.value c.ebp, eip := img.userland, cs := c3Sel, ss := d3Sel, shadow := false
    eflags := Eflags.blend c.eflags σ.flags Eflags.status }

/-- The frame that `iret` takes, in the order it is pushed. -/
def userFrame (img : Image) (u : UserStack) (σ : Scratch) (c : Cpu) : List Word :=
  [d3Sel.setWidth 32, u.value c.ebp, Eflags.blend c.eflags σ.flags Eflags.status,
    c3Sel.setWidth 32, img.userland]

/-- The machine behind `iret`. -/
def inRing3 (img : Image) (u : UserStack) (σ : Scratch) (s : Flat) : Flat :=
  { s with
    mem := s.mem.pushWords s.cpu.esp (userFrame img u σ s.cpu), cpu := userCpu img u σ s.cpu }

/-- The flags at the end of `entry`, the status flags apart. -/
def KernelFlags (f : Word) : Prop := f &&& ~~~Eflags.status = 2

theorem KernelFlags.blend {f : Word} (h : KernelFlags f) (g : Word) :
    KernelFlags (Eflags.blend f g Eflags.status) := (Eflags.blend_and _ _ (by decide)).trans h

theorem KernelFlags.and {f k : Word} (h : KernelFlags f) (hk : ~~~Eflags.status &&& k = k)
    (h2 : 2 &&& k = 0) : f &&& k = 0 := (Eflags.and_of_and h hk).trans h2

theorem setDataSegs_d3Sel {d : Desc} (hgdt : s.gdt = flatGdt d) :
    setDataSegs s d3Sel
      = some { s with
        cpu := { s.cpu with ds := d3Sel, es := d3Sel, fs := d3Sel, gs := d3Sel } } := by
  rw [setDataSegs, hgdt]
  rfl

theorem enterRing3_eq (img : Image) (u : UserStack) (σ : Scratch)
    (hgdt : s.gdtr.table (s.mem.pushWords s.cpu.esp (userFrame img u σ s.cpu)) = examGdt img.tss)
    (hds : s.cpu.ds = d3Sel) (hes : s.cpu.es = d3Sel) (hfs : s.cpu.fs = d3Sel)
    (hgs : s.cpu.gs = d3Sel) (hflags : KernelFlags s.cpu.eflags) :
    enterRing3 img u σ s = some (inRing3 img u σ s) := by
  have hops : evalOps [.movi .eax img.userland, .pushi (d3Sel.setWidth 32), u.push, .pushf,
      .pushi (c3Sel.setWidth 32), .push .eax] { s.cpu with
        ecx := σ.ecx, edx := σ.edx, ebx := σ.ebx, esi := σ.esi, edi := σ.edi
        eflags := Eflags.blend s.cpu.eflags σ.flags Eflags.status } s.mem
      = ({ s.cpu with
          eax := img.userland, ecx := σ.ecx, edx := σ.edx, ebx := σ.ebx, esi := σ.esi
          edi := σ.edi, esp := Mem.below s.cpu.esp 5, shadow := false
          eflags := Eflags.blend s.cpu.eflags σ.flags Eflags.status },
        s.mem.pushWords s.cpu.esp (userFrame img u σ s.cpu)) := by
    cases u <;>
    simp only [evalOps_cons, evalOps_nil, Op.eval, UserStack.push, UserStack.value, userFrame,
      Cpu.set, Cpu.get, Mem.pushWords, ← Mem.below_one, Mem.below_below]
  have hread : (s.mem.pushWords s.cpu.esp (userFrame img u σ s.cpu)).readWords
      (Mem.below s.cpu.esp 5) 5 = _ :=
    Mem.readWords_pushWords s.mem s.cpu.esp _ (by decide : 4 * 5 ≤ 2 ^ 32)
  have hkernel := hflags.blend σ.flags
  have hiret := Cpu.iret_outer (g := examGdt img.tss) (c := { s.cpu with
      eax := img.userland, ecx := σ.ecx, edx := σ.edx, ebx := σ.ebx, esi := σ.esi
      edi := σ.edi, esp := Mem.below s.cpu.esp 5, shadow := false
      eflags := Eflags.blend s.cpu.eflags σ.flags Eflags.status }) hread
    (hkernel.and (by decide) (by decide)) (hkernel.and (by decide) (by decide)) rfl rfl rfl
  unfold enterRing3 Flat.iret Flat.gdt
  simp only [hops, hgdt, hiret, Option.bind_eq_bind, Option.bind_some]
  simp only [hds, hes, hfs, hgs, outerData_d3Sel, inRing3, userCpu]
  rfl

/-! ## What tp leaves -/

/-- The kernel's stack has room below `top`, and `top` and the word there belong to it. -/
def StackTop (img : Image) (top : Word) : Prop :=
  0x900 ≤ (top - img.stack).toNat ∧ (top - img.stack).toNat + 4 ≤ sizeofStack

/-- The bytes that code on this stack touches. -/
def NearTop (top b : Word) : Prop := Within (top - 0x900) 0x904 b

theorem StackTop.not_kept (h : StackTop img top) (hb : NearTop top b) : ¬ img.Kept b := by
  have hin : Within img.stack sizeofStack b := by
    simp only [StackTop, NearTop, Within, sizeofStack] at *
    bv_omega
  rintro ((hgdt | hidt | htss) | htext)
  · exact img.stack_gdt b hin hgdt
  · exact img.stack_idt b hin hidt
  · exact img.stack_tss b hin htss
  · exact img.stack_text b hin htext

theorem StackTop.not_tabled (h : StackTop img top) (hb : NearTop top b) : ¬ img.Tabled b :=
  fun htabled => h.not_kept hb (.inl htabled)

/-- The machine inside `start`: at level 0 with interrupts off since `entry`, on the boot
stack, and with the gates of `intr_init`. -/
structure Entered (img : Image) (s : Flat) : Prop where
  flags : KernelFlags s.cpu.eflags
  stack : StackTop img (s.cpu.esp - 4)
  idtr : s.idtr = img.idtr
  idt : s.idt = intrInit img.idtTrampoline

/-- The control registers are the same. -/
structure SameControl (s s' : Flat) : Prop where
  cr0 : s'.cpu.cr0 = s.cpu.cr0
  cr3 : s'.cpu.cr3 = s.cpu.cr3
  cr4 : s'.cpu.cr4 = s.cpu.cr4

/-- The machine when `userland` begins, after a lab that `s₀` has entered. -/
structure Launched (img : Image) (gates : List Desc) (u : UserStack) (s₀ s : Flat) : Prop where
  installed : Installed img gates (s₀.cpu.esp - 4) s
  eip : s.cpu.eip = img.userland
  esp : s.cpu.esp = u.value (s₀.cpu.esp - 4)
  ebp : s.cpu.ebp = s₀.cpu.esp - 4
  cs : s.cpu.cs = c3Sel
  ss : s.cpu.ss = d3Sel
  ds : s.cpu.ds = d3Sel
  es : s.cpu.es = d3Sel
  fs : s.cpu.fs = d3Sel
  gs : s.cpu.gs = d3Sel
  flags : s.cpu.eflags &&& Machine.userFixed = 0
  control : SameControl s₀ s
  /-- The frame pointer that `tp` has saved. -/
  saved : s.mem.read32 (s₀.cpu.esp - 4) = s₀.cpu.ebp

/-- In the frame of `tp`, with the descriptors of the segments loaded. -/
structure Opened (img : Image) (gates : List Desc) (s₀ s : Flat) : Prop where
  gdtr : s.gdtr = img.gdtr
  gdt : ∃ d, s.gdt = flatGdt d
  idtr : s.idtr = img.idtr
  idt : s.idt = gates
  ebp : s.cpu.ebp = s₀.cpu.esp - 4
  esp : s.cpu.esp = s₀.cpu.esp - 4 - BitVec.ofNat 32 img.frame
  flags : KernelFlags s.cpu.eflags
  control : SameControl s₀ s
  saved : s.mem.read32 (s₀.cpu.esp - 4) = s₀.cpu.ebp

/-- The saved frame pointer is in none of the tables. -/
theorem StackTop.saved_congr (h : StackTop img top)
    (hmem : ∀ b, ¬ img.Tabled b → Within top 4 b → m' b = m b) :
    m'.read32 top = m.read32 top := by
  refine Mem.read32_congr fun b hb => hmem b (h.not_tabled ?_) hb
  simp only [NearTop, Within] at *
  bv_omega

/-- Only the stack is touched before the descriptors are written. -/
theorem openFrame_not_near (h : ¬ NearTop (s.cpu.esp - 4) b) :
    (openFrame img σ s).mem b = s.mem b := by
  have hdepth := img.depth_le
  simp only [openFrame, evalOps_cons, evalOps_nil, Op.eval, Cpu.set, Cpu.get]
  rw [Mem.blit_not_within (by simp only [NearTop, Within] at *; bv_omega),
    Mem.write32_not_within (by simp only [NearTop, Within] at *; bv_omega)]

theorem read32_openFrame (img : Image) (σ : Scratch) (s : Flat) :
    (openFrame img σ s).mem.read32 (s.cpu.esp - 4) = s.cpu.ebp := by
  have hdepth := img.depth_le
  have hword : (s.mem.write32 (s.cpu.esp - 4) s.cpu.ebp).read32 (s.cpu.esp - 4) = s.cpu.ebp :=
    Mem.read32_write32 ..
  rw [← hword]
  refine Mem.read32_congr fun b hb => Mem.blit_not_within ?_
  simp only [Op.eval, Cpu.set, Cpu.get, Within] at *
  bv_omega

theorem Entered.opened (h : Entered img s₀) (σ : Scratch) :
    ∃ s, initGdt img (openFrame img σ s₀) = some s ∧
      Opened img (intrInit img.idtTrampoline) s₀ s := by
  have hidt : img.idtr.table (initGdtMem img (openFrame img σ s₀).mem)
      = intrInit img.idtTrampoline := by
    rw [← h.idt, Flat.idt, h.idtr]
    refine idt_congr fun b hb => ?_
    rw [initGdtMem_not_within fun hgdt => img.gdt_idt b hgdt hb, openFrame_not_near]
    exact fun hnear => h.stack.not_tabled hnear (.inr (.inl hb))
  have hidtr : (openFrame img σ s₀).idtr = img.idtr := h.idtr
  refine ⟨_, initGdt_eq img _, ?_⟩
  exact {
    gdtr := rfl
    gdt := ⟨_, table_initGdtMem img _⟩
    idtr := h.idtr
    idt := (congrArg (fun r => r.table (initGdtMem img (openFrame img σ s₀).mem)) hidtr).trans hidt
    ebp := rfl
    esp := rfl
    flags := h.flags
    control := ⟨rfl, rfl, rfl⟩
    saved := by
      rw [← read32_openFrame img σ s₀]
      exact h.stack.saved_congr fun b hb _ => initGdtMem_not_within fun hgdt => hb (.inl hgdt) }

/-- Up to the frame for `iret`, with the data segments of level 3 loaded. -/
def withTss (img : Image) (s : Flat) : Flat :=
  { s with
    mem := tssMem img s.cpu.ebp s.mem, tr := img.tss
    cpu := { s.cpu with ds := d3Sel, es := d3Sel, fs := d3Sel, gs := d3Sel } }

theorem Opened.installed (h : Opened img gates s₀ s) :
    Installed img gates (s₀.cpu.esp - 4) (withTss img s) where
  gdtr := h.gdtr
  gdt := by
    obtain ⟨d, hgdt⟩ := h.gdt
    rw [Flat.gdt, h.gdtr] at hgdt
    change s.gdtr.table (tssMem img s.cpu.ebp s.mem) = _
    rw [h.gdtr, table_tssMem _ hgdt]
  idtr := h.idtr
  idt := by
    change s.idtr.table (tssMem img s.cpu.ebp s.mem) = _
    rw [← h.idt, Flat.idt, h.idtr]
    refine idt_congr fun b hb => tssMem_not_within ?_ (img.idt_tss b hb)
    exact fun hgdt => img.gdt_idt b hgdt hb
  tr := rfl
  esp0 := by
    change (tssMem img s.cpu.ebp s.mem).read32 (img.tss + 4) = _
    rw [read32_tssMem, h.ebp]
  ss0 := read16_tssMem s.cpu.ebp s.mem

/-- The frame for `iret` is pushed below the frame of `tp`. -/
theorem Opened.pushed (h : Opened img gates s₀ s) {ws : List Word} (hws : ws.length = 5)
    (hb : ¬ Within (s₀.cpu.esp - 4 - 0x900) 0x900 b) : m.pushWords s.cpu.esp ws b = m b := by
  have hdepth := img.depth_le
  refine Mem.pushWords_not_within ?_ (by omega)
  rw [h.esp, hws]
  simp only [Within, Mem.below] at *
  bv_omega

theorem Opened.launched (h : Opened img gates s₀ s) (hstack : StackTop img (s₀.cpu.esp - 4))
    (u : UserStack) (σ : Scratch) :
    ∃ s', launch img u σ s = some s' ∧ Launched img gates u s₀ s' := by
  obtain ⟨d, hgdt⟩ := h.gdt
  have hbase := h.installed
  let ws := userFrame img u σ (withTss img s).cpu
  have hws : ws.length = 5 := rfl
  have htabled (b : Word) (hb : img.Tabled b) :
      (withTss img s).mem.pushWords s.cpu.esp ws b = (withTss img s).mem b := by
    refine h.pushed hws fun hbelow => hstack.not_tabled ?_ hb
    simp only [NearTop, Within] at *
    omega
  have hinst : Installed img gates (s₀.cpu.esp - 4)
      { withTss img s with mem := (withTss img s).mem.pushWords s.cpu.esp ws } :=
    hbase.congr rfl rfl rfl htabled
  have henter := enterRing3_eq img u σ (s := withTss img s) hinst.gdt rfl rfl rfl rfl h.flags
  have hflags : KernelFlags (Eflags.blend s.cpu.eflags σ.flags Eflags.status) := h.flags.blend _
  refine ⟨inRing3 img u σ (withTss img s), ?_, {
    installed := hinst.congr rfl rfl rfl fun _ _ => rfl
    eip := rfl
    esp := congrArg u.value h.ebp
    ebp := h.ebp
    cs := rfl
    ss := rfl
    ds := rfl
    es := rfl
    fs := rfl
    gs := rfl
    flags := hflags.and (by decide) (by decide)
    control := ⟨h.control.cr0, h.control.cr3, h.control.cr4⟩
    saved := ?_ }⟩
  · refine Option.bind_eq_some_iff.mpr ⟨_, setDataSegs_d3Sel hgdt, ?_⟩
    exact Option.bind_eq_some_iff.mpr ⟨_, installTss_eq (d := d) h.gdtr hgdt, henter⟩
  · rw [← h.saved]
    refine hstack.saved_congr fun b hb hword => ?_
    have hout : (withTss img s).mem.pushWords s.cpu.esp ws b = (withTss img s).mem b := by
      refine h.pushed hws ?_
      simp only [Within] at *
      bv_omega
    exact hout.trans (tssMem_not_within (fun hg => hb (.inl hg)) fun ht => hb (.inr (.inr ht)))

/-! ## Level 3 -/

/-- The machine at level 3, with no way to turn interrupts on. -/
structure Ring3 (img : Image) (gates : List Desc) (top : Word) (s : Flat) : Prop where
  installed : Installed img gates top s
  cs : s.cpu.cs = c3Sel
  ss : s.cpu.ss = d3Sel
  flags : s.cpu.eflags &&& Machine.userFixed = 0

theorem Launched.ring3 (h : Launched img gates u s₀ s) :
    Ring3 img gates (s₀.cpu.esp - 4) s := ⟨h.installed, h.cs, h.ss, h.flags⟩

namespace Ring3

theorem cpl (h : Ring3 img gates top s) : s.cpu.cpl = 3 := by
  rw [Cpu.cpl, h.cs, cpl_c3Sel]

theorem not_interruptible (h : Ring3 img gates top s) : s.cpu.interruptible = false := by
  refine Cpu.not_interruptible (Cpu.intrFlag_eq_false ?_)
  exact (Eflags.and_of_and h.flags (by decide)).trans (by decide)

theorem vm (h : Ring3 img gates top s) : s.cpu.eflags &&& Eflags.vm = 0 :=
  (Eflags.and_of_and h.flags (by decide)).trans (by decide)

end Ring3

/-- One instruction of level 3: new registers, and the bytes it stores. -/
structure UserInstr where
  regs : Cpu
  stores : List (Word × Byte)

def userStep (s : Flat) (i : UserInstr) : Option Flat := s.user i.regs i.stores

/-- It stores nothing to the tables and to the kernel's code. -/
def UserInstr.Spares (img : Image) (i : UserInstr) : Prop := ∀ w ∈ i.stores, ¬ img.Kept w.1

/-- What an instruction at level 3 has done. -/
theorem user_eq {c : Cpu} {stores : List (Word × Byte)} (h : s.user c stores = some s') :
    s.gdt.codeOk 3 c.cs = true ∧ s.gdt.stackOk 3 c.ss = true ∧ s' = { s with
      mem := Flat.storeAll s.mem stores
      cpu := { c with
        eflags := Eflags.blend s.cpu.eflags c.eflags Eflags.user, shadow := false
        cr0 := s.cpu.cr0, cr2 := s.cpu.cr2, cr3 := s.cpu.cr3, cr4 := s.cpu.cr4 } } := by
  unfold Flat.user at h
  split at h
  · cases h
  split at h
  · cases h
  · next hok =>
    simp only [Bool.not_eq_true', Bool.not_eq_false, Bool.and_eq_true] at hok
    exact ⟨hok.1.1.1.1.1, hok.1.1.1.1.2, (Option.some.inj h).symm⟩

theorem sameControl_user {i : UserInstr} (h : userStep s i = some s') : SameControl s s' := by
  obtain ⟨-, -, rfl⟩ := user_eq h
  exact ⟨rfl, rfl, rfl⟩

theorem Ring3.user (h : Ring3 img gates top s) {i : UserInstr} (hspare : i.Spares img)
    (hstep : userStep s i = some s') : Ring3 img gates top s' := by
  obtain ⟨hcode, hstack, rfl⟩ := user_eq hstep
  rw [h.installed.gdt] at hcode hstack
  refine ⟨h.installed.congr rfl rfl rfl fun b hb => ?_, codeOk_three img.tss hcode,
    stackOk_three img.tss hstack, (Eflags.blend_and _ _ (by decide)).trans h.flags⟩
  exact Flat.storeAll_of_forall_ne fun w hw hne => hspare w hw (.inl (hne ▸ hb))

/-- The data segments are some that level 3 could load. -/
structure Segs (tss : Word) (cpu : Cpu) : Prop where
  ds : (examGdt tss).dataOk 3 cpu.ds = true
  es : (examGdt tss).dataOk 3 cpu.es = true
  fs : (examGdt tss).dataOk 3 cpu.fs = true
  gs : (examGdt tss).dataOk 3 cpu.gs = true

theorem Launched.segs (h : Launched img gates u s₀ s) : Segs img.tss s.cpu where
  ds := by rw [h.ds, dataOk_d3Sel]
  es := by rw [h.es, dataOk_d3Sel]
  fs := by rw [h.fs, dataOk_d3Sel]
  gs := by rw [h.gs, dataOk_d3Sel]

theorem segs_user {i : UserInstr} (htable : s.gdt = examGdt img.tss) (h : userStep s i = some s') :
    Segs img.tss s'.cpu := by
  unfold userStep Flat.user at h
  split at h
  · cases h
  split at h
  · cases h
  · next hok =>
    simp only [Bool.not_eq_true', Bool.not_eq_false, Bool.and_eq_true, htable] at hok
    obtain rfl := Option.some.inj h
    exact ⟨hok.1.1.1.2, hok.1.1.2, hok.1.2, hok.2⟩

theorem blend_self (f mask : Word) : Eflags.blend f f mask = f := by
  apply BitVec.eq_of_getLsbD_eq
  intro i hi
  simp only [Eflags.blend, BitVec.getLsbD_or, BitVec.getLsbD_and, BitVec.getLsbD_not, hi,
    decide_true, Bool.true_and]
  cases f.getLsbD i <;> cases mask.getLsbD i <;> rfl

/-- An instruction that leaves the selectors and the flags alone is carried out. -/
theorem Ring3.userStep_eq (h : Ring3 img gates top s) (hsegs : Segs img.tss s.cpu) {i : UserInstr}
    (hregs : i.regs = { s.cpu with
      esp := i.regs.esp, ebp := i.regs.ebp, esi := i.regs.esi, eip := i.regs.eip
      shadow := i.regs.shadow }) :
    userStep s i = some { s with
      mem := Flat.storeAll s.mem i.stores, cpu := { i.regs with shadow := false } } := by
  have hcpl : ¬ s.cpu.cpl ≠ 3 := not_not_intro h.cpl
  unfold userStep Flat.user
  rw [if_neg hcpl, h.installed.gdt, hregs]
  simp only [h.cs, h.ss, hsegs.ds, hsegs.es, hsegs.fs, hsegs.gs, codeOk_c3Sel, stackOk_d3Sel,
    Bool.and_self, Bool.not_true, Bool.false_eq_true, if_false, blend_self]

/-! ## Entering a handler -/

/-- The registers at the entry of a handler, its gate leading to `a`. -/
def enteredCpu (c : Cpu) (top a : Word) (err : Option Word) : Cpu :=
  { c with
    esp := Mem.below top (c.trapFrame err).length, ss := d0Sel, cs := c0Sel, eip := a
    eflags := c.eflags &&& ~~~Eflags.gateClear, shadow := false }

def entered (s : Flat) (top a : Word) (err : Option Word) : Flat :=
  { s with
    cpu := enteredCpu s.cpu top a err, mem := s.mem.pushWords top (s.cpu.trapFrame err) }

theorem Ring3.interrupt_eq (h : Ring3 img gates top s) {v : Nat} (err : Option Word) {g : Desc}
    {a : Word} {pl : BitVec 2} (hg : gates[v]? = some g) (hgate : GateTo g a pl) :
    s.interrupt v err = some (entered s top a err) := by
  have hsel : g.gateSelector &&& ~~~3 = c0Sel := by rw [hgate.selector]; decide
  have hcpl : ¬ s.cpu.cpl = 0 := by rw [h.cpl]; decide
  refine (Flat.interrupt_eq (g := g) (by rw [h.installed.idt, hg]) hgate.present hgate.type
    (by rw [hsel, h.installed.gdt, codeOk_c0Sel])
    (fun _ => by rw [h.installed.gdt, h.installed.ss0, stackOk_d0Sel])).trans ?_
  simp only [Cpu.deliver, if_neg hcpl, hsel, h.installed.esp0, h.installed.ss0, hgate.offset]
  rfl

/-! ## A sample -/

/-- Objects that lie apart in the kernel's part of memory. -/
def sampleImage : Image where
  gdt := 0x306000
  tss := 0x307000
  idt := 0x30a000
  idtTrampoline := 0x302010
  userland := 0x304500
  text := 0x302000
  textSize := 0x3000
  stack := 0x300000
  frame := 0x18
  cDepth := 0x200
  depth_le := by decide
  gdt_idt _ h := h.not_within (by decide) (by decide)
  gdt_tss _ h := h.not_within (by decide) (by decide)
  idt_tss _ h := h.not_within (by decide) (by decide)
  stack_gdt _ h := h.not_within (by decide) (by decide)
  stack_idt _ h := h.not_within (by decide) (by decide)
  stack_tss _ h := h.not_within (by decide) (by decide)
  stack_text _ h := h.not_within (by decide) (by decide)

/-- Compiled code that leaves zeros behind. -/
def sampleScratch : Scratch := ⟨0, 0, 0, 0, 0, 0, 0, 0, fun _ => 0⟩

/-- Zero but for the gates. -/
@[irreducible] def sampleMem : Mem :=
  storeDescs sampleImage.idtr.base (fun _ => 0) 0 (intrInit sampleImage.idtTrampoline)

theorem table_sampleMem :
    sampleImage.idtr.table sampleMem = intrInit sampleImage.idtTrampoline := by
  have hlen : (intrInit sampleImage.idtTrampoline).length = 256 := length_intrInitLoop _ _
  unfold sampleMem
  rw [table_storeDescs (by rw [hlen, limit_idtr]), List.take_zero, List.nil_append]

/-- A machine in `start`. -/
def sampleEntered : Flat where
  cpu :=
    { eax := 0, ecx := 0, edx := 0, ebx := 0, esp := 0x301fe0, ebp := 0x301ff0, esi := 0, edi := 0
      eip := 0x303023, eflags := 2, cs := 8, ss := 16, ds := 16, es := 16, fs := 16, gs := 16
      cr0 := 0x11, cr2 := 0, cr3 := 0, cr4 := 0, shadow := false }
  mem := sampleMem
  gdtr := ⟨0x8f8c, 39⟩
  idtr := sampleImage.idtr
  tr := 0

theorem entered_sample : Entered sampleImage sampleEntered where
  flags := rfl
  stack := ⟨by decide, by decide⟩
  idtr := rfl
  idt := table_sampleMem

end Tp3

end SecOS
