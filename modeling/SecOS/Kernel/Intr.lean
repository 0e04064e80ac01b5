-- SUMMARY: The interrupt context, the gate table that `intr_init` builds, and the C handlers of interrupts and exceptions.
import SecOS.X86.Cpu
import SecOS.Kernel.Segmem

/-!
# Interrupts

`int_ctx_t`, `build_int_desc` and the loop of `intr_init`, and the two C functions
at the end of the default interrupt path: `intr_hdlr` and `excp_hdlr`.
-/

namespace SecOS

open X86

/-! ## Messages -/

/-- An argument of a message. A text is missing when the table it comes from has
no such entry. -/
inductive Arg where
  | word (w : Word)
  | text (s : Option String)
  deriving DecidableEq

/-- One call of `debug`: the format and its arguments. -/
structure Line where
  format : String
  args : List Arg
  deriving DecidableEq

/-- How a C handler ends: it returns, or it goes into `stack_trace`, and from there at best
into `panic`. Either way it has printed something. -/
inductive Outcome where
  | ret (out : List Line)
  | fatal (out : List Line)
  deriving DecidableEq

/-! ## Interrupt context -/

/-- The block `pusha` leaves, lowest address first. -/
structure GprCtx where
  edi : Word
  esi : Word
  ebp : Word
  esp : Word
  ebx : Word
  edx : Word
  ecx : Word
  eax : Word
  deriving DecidableEq

/-- `int_ctx_t`: the general registers, then the fields of `cpu_ctx_t`. -/
structure IntCtx where
  gpr : GprCtx
  nr : Word
  err : Word
  eip : Word
  cs : Word
  eflags : Word
  esp : Word
  ss : Word
  deriving DecidableEq

/-- Number of words of an `int_ctx_t`. -/
def intCtxWords : Nat := 15

namespace IntCtx

def words (c : IntCtx) : List Word :=
  [c.gpr.edi, c.gpr.esi, c.gpr.ebp, c.gpr.esp, c.gpr.ebx, c.gpr.edx, c.gpr.ecx, c.gpr.eax,
    c.nr, c.err, c.eip, c.cs, c.eflags, c.esp, c.ss]

/-- Read the fields off a list of words, lowest address first. -/
def ofWords (ws : List Word) : IntCtx :=
  let w (k : Nat) := ws[k]?.getD 0
  { gpr := { edi := w 0, esi := w 1, ebp := w 2, esp := w 3
             ebx := w 4, edx := w 5, ecx := w 6, eax := w 7 }
    nr := w 8, err := w 9, eip := w 10, cs := w 11, eflags := w 12, esp := w 13, ss := w 14 }

/-- The struct at address `a`. -/
def load (m : Mem) (a : Word) : IntCtx := ofWords (m.readWords a intCtxWords)

def zero : IntCtx := ofWords []

@[simp] theorem length_words (c : IntCtx) : c.words.length = intCtxWords := rfl

@[simp] theorem ofWords_words (c : IntCtx) : ofWords c.words = c := rfl

theorem words_ofWords {ws : List Word} (h : ws.length = intCtxWords) : (ofWords ws).words = ws := by
  match ws, h with
  | [_, _, _, _, _, _, _, _, _, _, _, _, _, _, _], _ => rfl

@[simp] theorem words_load (m : Mem) (a : Word) :
    (load m a).words = m.readWords a intCtxWords :=
  words_ofWords (by simp)

end IntCtx

/-! ## The interrupt descriptor table -/

def idtNrDesc : Nat := 256
def idtIsrAlgn : Word := 16

instance neZeroNrDesc : NeZero 256 := ⟨by decide⟩

/-- `build_int_desc`: an interrupt gate at level 0. -/
def buildIntDesc (cs : Sel) (isr : Word) : Desc :=
  let dsc : Desc := (field isr 0 16).setWidth 64
  let dsc := setField dsc 16 cs
  let dsc := setField dsc 40 segDescSysIntrGate32
  let dsc := setField dsc 48 (field isr 16 16)
  setField dsc 47 1#1

/-- The loop of `intr_init`: `n` more gates, the first of them for `isr`. -/
def intrInitLoop (isr : Word) : Nat → List Desc
  | 0 => []
  | n + 1 => buildIntDesc (gdtKrnSegSel 1) isr :: intrInitLoop (isr + idtIsrAlgn) n

def intrInit (idtTrampoline : Word) : List Desc := intrInitLoop idtTrampoline idtNrDesc

section Gates

@[simp] theorem gateOffset_buildIntDesc (cs : Sel) (isr : Word) :
    (buildIntDesc cs isr).gateOffset = isr := by
  have hhigh : field (buildIntDesc cs isr) 48 16 = field isr 16 16 := by
    simp only [buildIntDesc]
    rw [field_setField_disjoint _ _ (by omega) (by omega), field_setField _ _ _ (by omega)]
  have hlow : field (buildIntDesc cs isr) 0 16 = field isr 0 16 := by
    simp only [buildIntDesc]
    repeat rw [field_setField_disjoint _ _ (by omega) (by omega)]
    apply BitVec.eq_of_getLsbD_eq
    intro i hi
    have h64 : i < 64 := by omega
    rw [getLsbD_field, BitVec.getLsbD_setWidth, getLsbD_field, getLsbD_field]
    simp [hi, h64]
  rw [Desc.gateOffset, hhigh, hlow]
  apply BitVec.eq_of_getLsbD_eq
  intro i hi
  rw [BitVec.getLsbD_append, getLsbD_field, getLsbD_field]
  by_cases h : i < 16
  · simp [h]
  · have h16 : i - 16 < 16 := by omega
    have hadd : 16 + (i - 16) = i := by omega
    simp [h, h16, hadd]

@[simp] theorem gateSelector_buildIntDesc (cs : Sel) (isr : Word) :
    (buildIntDesc cs isr).gateSelector = cs := by
  simp only [Desc.gateSelector, buildIntDesc]
  repeat rw [field_setField_disjoint _ _ (by omega) (by omega)]
  exact field_setField _ _ _ (by omega)

@[simp] theorem dpl_buildIntDesc (cs : Sel) (isr : Word) : (buildIntDesc cs isr).dpl = 0 := by
  simp only [Desc.dpl, buildIntDesc]
  repeat rw [field_setField_disjoint _ _ (by omega) (by omega)]
  apply BitVec.eq_of_getLsbD_eq
  intro i hi
  have h16 : ¬ 45 + i < 16 := by omega
  simp [getLsbD_field, h16]

@[simp] theorem type_buildIntDesc (cs : Sel) (isr : Word) :
    (buildIntDesc cs isr).type = segDescSysIntrGate32 := by
  simp only [Desc.type, buildIntDesc]
  repeat rw [field_setField_disjoint _ _ (by omega) (by omega)]
  exact field_setField _ _ _ (by omega)

@[simp] theorem present_buildIntDesc (cs : Sel) (isr : Word) :
    (buildIntDesc cs isr).present = true := by
  simp only [Desc.present, buildIntDesc]
  rw [getLsbD_setField _ _ _ (by omega), if_pos (by omega)]
  rfl

@[simp] theorem length_intrInitLoop (isr : Word) (n : Nat) : (intrInitLoop isr n).length = n := by
  induction n generalizing isr with
  | zero => rfl
  | succ n ih => simp [intrInitLoop, ih]

theorem getElem?_intrInitLoop (isr : Word) {n i : Nat} (hi : i < n) :
    (intrInitLoop isr n)[i]?
      = some (buildIntDesc (gdtKrnSegSel 1) (isr + BitVec.ofNat 32 (16 * i))) := by
  induction n generalizing isr i with
  | zero => omega
  | succ n ih =>
    cases i with
    | zero => simp [intrInitLoop]
    | succ i =>
      have haddr : isr + idtIsrAlgn + BitVec.ofNat 32 (16 * i)
          = isr + BitVec.ofNat 32 (16 * (i + 1)) := by
        simp only [idtIsrAlgn]
        apply BitVec.eq_of_toNat_eq; simp; omega
      rw [intrInitLoop, List.getElem?_cons_succ, ih _ (by omega), haddr]

/-- Gate `i` of the table leads to the `i`-th 16-byte slot of the trampoline. -/
theorem getElem?_intrInit (t : Word) {i : Nat} (hi : i < 256) :
    (intrInit t)[i]? = some (buildIntDesc (gdtKrnSegSel 1) (t + BitVec.ofNat 32 (16 * i))) :=
  getElem?_intrInitLoop t hi

end Gates

/-! ## Handlers -/

def nrExcp : Nat := 32
def nmiExcp : Nat := 2
def gpExcp : Nat := 13
def pfExcp : Nat := 14

def exceptionNames : List String :=
  ["Divide by zero", "Debug", "NMI interrupt", "Breakpoint", "Overflow", "BOUND range exceeded",
    "Invalid Opcode", "Device not available", "Double fault", "Coprocessor segment overrun",
    "Invalid TSS", "Segment not present", "Stack fault", "General protection", "Page fault",
    "Intel Reserved", "Floating point error", "Alignment check", "Machine check",
    "SIMD floating point"]

/-- The low byte of a word, `blow`. -/
def blow (w : Word) : Nat := (field w 0 8).toNat

private def bits (w : Word) (lo n : Nat) : Arg := .word ((field w lo n).setWidth 32)

/-- Only the non-maskable interrupt comes back. `.fatal` ends where `stack_trace` is called,
which need not come to its end. -/
def excpHdlr (cpu : Cpu) (ctx : IntCtx) : Outcome :=
  let vector := blow ctx.nr
  let out := [⟨"\nException: %s\n", [.text exceptionNames[vector]?]⟩]
  if vector = nmiExcp then
    .ret (out ++ [⟨"#NMI (ignored)\n", []⟩])
  else
    let out := out ++
      if vector = pfExcp then
        [⟨"#PF details: p:%d wr:%d us:%d id:%d addr 0x%x\n",
          [bits ctx.err 0 1, bits ctx.err 1 1, bits ctx.err 2 1, bits ctx.err 4 1, .word cpu.cr2]⟩]
      else if vector = gpExcp then
        [⟨"#GP details: ext:%d idt:%d ti:%d index:%d\n",
          [bits ctx.err 0 1, bits ctx.err 1 1, bits ctx.err 2 1, bits ctx.err 3 13]⟩]
      else []
    .fatal (out ++
      [⟨"cr0 = %p\n", [.word cpu.cr0]⟩, ⟨"cr3 = %p\n", [.word cpu.cr3]⟩,
        ⟨"cr4 = %p\n", [.word cpu.cr4]⟩])

/-- The report `intr_hdlr` starts with. -/
def intrReport (ctx : IntCtx) : Line where
  format := "\nIDT event\n . int    #%d\n . error  0x%x\n . cs:eip 0x%x:0x%x\n" ++
    " . ss:esp 0x%x:0x%x\n . eflags 0x%x\n\n- GPR\neax     : 0x%x\necx     : 0x%x\n" ++
    "edx     : 0x%x\nebx     : 0x%x\nesp     : 0x%x\nebp     : 0x%x\nesi     : 0x%x\n" ++
    "edi     : 0x%x\n"
  args := [.word ctx.nr, .word ctx.err, .word ctx.cs, .word ctx.eip, .word ctx.ss, .word ctx.esp,
    .word ctx.eflags, .word ctx.gpr.eax, .word ctx.gpr.ecx, .word ctx.gpr.edx, .word ctx.gpr.ebx,
    .word ctx.gpr.esp, .word ctx.gpr.ebp, .word ctx.gpr.esi, .word ctx.gpr.edi]

/-- `intr_hdlr` with what it calls for an exception as a parameter. -/
def intrHdlrWith (excpHdlr : Cpu → IntCtx → Outcome) (cpu : Cpu) (ctx : IntCtx) : Outcome :=
  let vector := blow ctx.nr
  if vector < nrExcp then
    match excpHdlr cpu ctx with
    | .ret out => .ret (intrReport ctx :: out)
    | .fatal out => .fatal (intrReport ctx :: out)
  else
    .ret [intrReport ctx, ⟨"ignore IRQ %d\n", [.word (BitVec.ofNat 32 vector)]⟩]

def intrHdlr : Cpu → IntCtx → Outcome := intrHdlrWith excpHdlr

end SecOS
