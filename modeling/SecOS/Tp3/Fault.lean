-- SUMMARY: A fault of level 3 in the labs is reported and ends in panic; the stack trace of tp3 starts in its own trap frame.
import SecOS.Exam.Steps
import SecOS.Kernel.Console
import SecOS.Tp3.Userland

/-!
# Faults in the labs

`userland` of tp3 tries to write CR0. Nothing of it happens: the processor enters the stub
of the exception, and the common path calls `intr_hdlr` with what was interrupted. But tp3
has given level 3 the stack of level 0, so the frame that `userland` has made for itself is
no longer there when `stack_trace` follows it.
-/

namespace SecOS

open X86

namespace Tp3

variable {img : Image} {σ : Scratch} {s s' s₀ s₁ t : Flat} {gates : List Desc} {top b : Word}
variable {c : Cpu} {m : Mem} {v : Nat} {err : Option Word}

/-! ## The common path -/

/-- The straight-line instructions of a text. -/
def opsOf (is : List Instr) : List Op := is.filterMap fun
  | .op o => some o
  | _ => none

/-- The entry of a vector and `idt_common`, up to the call of `intr_hdlr`. -/
def trapOps (v : Nat) : List Op := opsOf (stubOf v) ++ opsOf ((idtText.drop idtCommon.idx).take 2)

/-- The machine when `intr_hdlr` reads the context that EAX points to. It would fault there
if DS could not be used. -/
def atHandler (img : Image) (σ : Scratch) (s : Flat) (v : Nat) (err : Option Word) :
    Option Flat := do
  let s ← s.interrupt v err
  let (cpu, mem) := evalOps (trapOps v) s.cpu s.mem
  if !s.gdt.dataUsable cpu.ds then none else
  return { s with
    cpu, mem := mem.blit (cpu.esp - BitVec.ofNat 32 img.cDepth) img.cDepth σ.stack }

/-- The context of a fault at level 3. -/
def contextOf (c : Cpu) (top : Word) (v : Nat) (err : Option Word) : IntCtx where
  gpr :=
    { edi := c.edi, esi := c.esi, ebp := c.ebp, esp := Mem.below top 7, ebx := c.ebx, edx := c.edx
      ecx := c.ecx, eax := c.eax }
  nr := BitVec.ofNat 32 v
  err := err.getD (-1)
  eip := c.eip
  cs := c.cs.setWidth 32
  eflags := c.eflags
  esp := c.esp
  ss := c.ss.setWidth 32

theorem opsOf_stubOf (hv : v < 20 ∨ 48 ≤ v) :
    opsOf (stubOf v) = (Machine.stubWords v).map .pushi := by
  unfold stubOf Machine.stubWords
  rw [if_neg (by omega)]
  split <;> rfl

theorem trapOps_eq (hv : v < 20 ∨ 48 ≤ v) :
    trapOps v = (Machine.stubWords v).map .pushi ++ [.pusha, .mov .eax .esp] := by
  unfold trapOps
  rw [opsOf_stubOf hv]
  rfl

theorem evalOps_append (os os' : List Op) (c : Cpu) (m : Mem) :
    evalOps (os ++ os') c m = evalOps os' (evalOps os c m).1 (evalOps os c m).2 :=
  List.foldl_append

theorem evalOps_pushi (ws : List Word) (hshadow : c.shadow = false) :
    evalOps (ws.map .pushi) c m
      = ({ c with esp := Mem.below c.esp ws.length }, m.pushWords c.esp ws) := by
  induction ws generalizing c m with
  | nil =>
    rw [List.length_nil, Mem.below_zero]
    rfl
  | cons w ws ih =>
    rw [List.map_cons, evalOps_cons, Op.eval]
    refine (ih rfl).trans ?_
    rw [Mem.below_succ, List.length_cons, Mem.pushWords]
    simp only [← hshadow]

/-- All that is pushed on the way to `intr_hdlr`, first to last. -/
def pushed (c : Cpu) (top : Word) (v : Nat) (err : Option Word) : List Word :=
  c.trapFrame err ++ Machine.stubWords v
    ++ [c.eax, c.ecx, c.edx, c.ebx, Mem.below top 7, c.ebp, c.esi, c.edi]

theorem frame_eq (hcpl : c.cpl ≠ 0) (herr : err.isSome = hasErrorCode v) :
    c.trapFrame err ++ Machine.stubWords v
      = [c.ss.setWidth 32, c.esp, c.eflags, c.cs.setWidth 32, c.eip, err.getD (-1),
          BitVec.ofNat 32 v] := by
  rw [Cpu.trapFrame, if_neg hcpl, List.append_assoc, List.append_assoc, Machine.errWords_eq herr]
  rfl

theorem pushed_eq (hcpl : c.cpl ≠ 0) (herr : err.isSome = hasErrorCode v) :
    pushed c top v err = (contextOf c top v err).words.reverse := by
  rw [pushed, frame_eq hcpl herr]
  rfl

/-- The machine at the call of `intr_hdlr`, with the gate leading to `a`. Inside the kernel
the instruction pointer is not followed. -/
def reported (img : Image) (σ : Scratch) (s : Flat) (top a : Word) (v : Nat) (err : Option Word) :
    Flat :=
  { s with
    cpu := { enteredCpu s.cpu top a err with esp := Mem.below top 15, eax := Mem.below top 15 }
    mem := (s.mem.pushWords top (pushed s.cpu top v err)).blit
      (Mem.below top 15 - BitVec.ofNat 32 img.cDepth) img.cDepth σ.stack }

theorem evalOps_trapOps {a : Word} (hcpl : s.cpu.cpl ≠ 0) (hv : v < 20 ∨ 48 ≤ v)
    (herr : err.isSome = hasErrorCode v) :
    evalOps (trapOps v) (entered s top a err).cpu (entered s top a err).mem
      = ({ enteredCpu s.cpu top a err with esp := Mem.below top 15, eax := Mem.below top 15 },
          s.mem.pushWords top (pushed s.cpu top v err)) := by
  have hlen : (s.cpu.trapFrame err).length + (Machine.stubWords v).length = 7 := by
    rw [← List.length_append, frame_eq hcpl herr]
    rfl
  have hpush := evalOps_pushi (c := enteredCpu s.cpu top a err) (m := (entered s top a err).mem)
    (Machine.stubWords v) rfl
  rw [trapOps_eq hv, evalOps_append]
  simp only [entered] at hpush ⊢
  rw [hpush]
  simp only [enteredCpu, evalOps_cons, evalOps_nil, Op.eval, Cpu.gprs, Cpu.set, Cpu.get,
    Mem.below_below, hlen, pushed, Mem.pushWords_append, List.length_append]

/-- The frame of the processor spares the tables. -/
theorem Ring3.entered (h : Ring3 img gates top s) (hstack : StackTop img top) (a : Word)
    (err : Option Word) : Installed img gates top (entered s top a err) := by
  refine Installed.congr h.installed rfl rfl rfl fun b hb => ?_
  have hlen := Machine.length_trapFrame_le s.cpu err
  refine Mem.pushWords_not_within (fun hin => hstack.not_tabled ?_ hb) (by omega)
  simp only [NearTop, Within, Mem.below] at *
  bv_omega

theorem Ring3.atHandler_eq (h : Ring3 img gates top s) (hstack : StackTop img top)
    (hgate : gates[v]? = (intrInit img.idtTrampoline)[v]?) (hv : v < 20 ∨ 48 ≤ v) (hlt : v < 256)
    (herr : err.isSome = hasErrorCode v) (hds : (examGdt img.tss).dataUsable s.cpu.ds = true)
    (σ : Scratch) :
    atHandler img σ s v err = some (reported img σ s top
      (img.idtTrampoline + BitVec.ofNat 32 (16 * v)) v err) := by
  have hcpl : s.cpu.cpl ≠ 0 := by rw [h.cpl]; decide
  have hg := hgate.trans (getElem?_intrInit img.idtTrampoline hlt)
  have hint := h.interrupt_eq err hg (GateTo.buildIntDesc _)
  have hgdt := (h.entered hstack (img.idtTrampoline + BitVec.ofNat 32 (16 * v)) err).gdt
  unfold atHandler
  simp only [hint, Option.bind_eq_bind, Option.bind_some, evalOps_trapOps hcpl hv herr, hgdt]
  simp only [enteredCpu, hds, Bool.not_true, Bool.false_eq_true, if_false]
  rfl

/-- What lies at the stack pointer is the context, which EAX points to. -/
theorem load_reported (img : Image) (σ : Scratch) (top a : Word) (hcpl : s.cpu.cpl ≠ 0)
    (herr : err.isSome = hasErrorCode v) :
    IntCtx.load (reported img σ s top a v err).mem (reported img σ s top a v err).cpu.eax
      = contextOf s.cpu top v err := by
  have hdepth := img.depth_le
  have hlen : (pushed s.cpu top v err).length = 15 := by rw [pushed_eq hcpl herr]; rfl
  have hread := Mem.readWords_pushWords s.mem top (pushed s.cpu top v err) (by rw [hlen]; decide)
  have hbelow : (reported img σ s top a v err).mem.readWords (Mem.below top 15) intCtxWords
      = (s.mem.pushWords top (pushed s.cpu top v err)).readWords (Mem.below top 15) intCtxWords :=
    Mem.readWords_blit_below (by simp only [intCtxWords]; omega)
  rw [hlen, pushed_eq hcpl herr, List.reverse_reverse] at hread
  refine (congrArg IntCtx.ofWords (hbelow.trans ?_)).trans (IntCtx.ofWords_words _)
  rw [pushed_eq hcpl herr]
  exact hread

/-! ## Runs of level 3 -/

theorem SameControl.trans (h : SameControl s₀ s₁) (h' : SameControl s₁ s) : SameControl s₀ s :=
  ⟨h'.cr0.trans h.cr0, h'.cr3.trans h.cr3, h'.cr4.trans h.cr4⟩

/-- At level 3, with the control registers of `s₁`. -/
structure Confined (img : Image) (gates : List Desc) (top : Word) (s₁ s : Flat) : Prop where
  ring3 : Ring3 img gates top s
  control : SameControl s₁ s

/-- Level 3 stays level 3, whatever it executes. -/
theorem Confined.user {i : UserInstr} (h : Confined img gates top s₁ s) (hspare : i.Spares img)
    (hstep : userStep s i = some s') : Confined img gates top s₁ s' :=
  ⟨h.ring3.user hspare hstep, h.control.trans (sameControl_user hstep)⟩

theorem Ring3.run {is : List UserInstr} (h : Ring3 img gates top s₁)
    (hspare : ∀ i ∈ is, i.Spares img) (hrun : Lts.run userStep s₁ is = some s) :
    Confined img gates top s₁ s :=
  Lts.run_invariant_of (fun _ _ _ hinv hok hstep => Confined.user hinv hok hstep)
    ⟨h, rfl, rfl, rfl⟩ hspare hrun

/-- What becomes of exception `v` at level 3: `intr_hdlr` is called with its context, reports
it, and goes into the stack trace. -/
structure Faults (img : Image) (σ : Scratch) (s : Flat) (top : Word) (v : Nat) (err : Option Word)
    (t : Flat) : Prop where
  reached : atHandler img σ s v err = some t
  cpl : t.cpu.cpl = 0
  off : t.cpu.interruptible = false
  control : SameControl s t
  context : IntCtx.load t.mem t.cpu.eax = contextOf s.cpu top v err
  fatal : ∃ out name, exceptionNames[v]? = some name ∧
    intrHdlr t.cpu (IntCtx.load t.mem t.cpu.eax) = .fatal out ∧
    ⟨"\nException: %s\n", [.text (some name)]⟩ ∈ out ∧ ∀ l ∈ out, l.Printable

theorem Ring3.faults (h : Ring3 img gates top s) (hstack : StackTop img top)
    (hgate : gates[v]? = (intrInit img.idtTrampoline)[v]?) (hv : v < 20) (hnmi : v ≠ nmiExcp)
    (herr : err.isSome = hasErrorCode v) (hds : (examGdt img.tss).dataUsable s.cpu.ds = true)
    (σ : Scratch) :
    Faults img σ s top v err
      (reported img σ s top (img.idtTrampoline + BitVec.ofNat 32 (16 * v)) v err) := by
  have hcpl : s.cpu.cpl ≠ 0 := by rw [h.cpl]; decide
  have hload := load_reported img σ top (img.idtTrampoline + BitVec.ofNat 32 (16 * v)) hcpl herr
  have hblow : blow (contextOf s.cpu top v err).nr = v := Machine.blow_ofNat (by omega)
  refine ⟨h.atHandler_eq hstack hgate (.inl hv) (by omega) herr hds σ, cpl_c0Sel, ?_,
    ⟨rfl, rfl, rfl⟩, hload, ?_⟩
  · exact Cpu.not_interruptible (Cpu.intrFlag_eq_false (Eflags.and_not_and _ (by decide)))
  · rw [hload]
    exact fatal_intrHdlr _ hv hnmi hblow

/-- `tp` always gets to `userland` at level 3. From there on, as long as the tables and the
kernel's code are left alone, whatever is executed stays at level 3 with interrupts off and
the control registers as they were; writing CR0 is a general protection fault; and while DS
can be used, every exception but the non-maskable interrupt is reported as it happened and
goes into the stack trace. -/
theorem faults_of_run (hent : Entered img s₀) (σ : Scratch) :
    ∃ s₁, tp img σ s₀ = some s₁ ∧ s₁.cpu.eip = img.userland ∧ s₁.cpu.ds = d3Sel ∧
      s₁.cpu.es = d3Sel ∧ ∀ is s, (∀ i ∈ is, UserInstr.Spares img i) →
        Lts.run userStep s₁ is = some s →
        s.cpu.cpl = 3 ∧ s.cpu.interruptible = false ∧ SameControl s₀ s ∧
        s.gdt = examGdt img.tss ∧ s.movCr0 = s.interrupt 13 (some 0) ∧
        ∀ v err, v < 20 → v ≠ nmiExcp → err.isSome = hasErrorCode v →
          s.gdt.dataUsable s.cpu.ds = true →
            ∀ σ', ∃ t, Faults img σ' s (s₀.cpu.esp - 4) v err t := by
  obtain ⟨s', hopen, hopened⟩ := hent.opened σ
  obtain ⟨s₁, hlaunch, hlaunched⟩ := hopened.launched hent.stack .ebp σ
  refine ⟨s₁, Option.bind_eq_some_iff.mpr ⟨s', hopen, hlaunch⟩, hlaunched.eip,
    hlaunched.ds, hlaunched.es, ?_⟩
  intro is s hspare hrun
  obtain ⟨hring, hcontrol⟩ := hlaunched.ring3.run hspare hrun
  refine ⟨hring.cpl, hring.not_interruptible, hlaunched.control.trans hcontrol,
    hring.installed.gdt, ?_, ?_⟩
  · exact if_pos (by rw [hring.cpl]; decide)
  · intro v err hv hnmi herr hds σ'
    rw [hring.installed.gdt] at hds
    exact ⟨_, hring.faults hent.stack rfl hv hnmi herr hds σ'⟩

/-- The first thing that `userland` does is writing CR0. -/
theorem faults_sample :
    ∃ s₁ t, tp sampleImage sampleScratch sampleEntered = some s₁ ∧
      Faults sampleImage sampleScratch s₁ 0x301fdc 13 (some 0) t := by
  obtain ⟨s₁, htp, -, hds, hes, hall⟩ := faults_of_run entered_sample sampleScratch
  obtain ⟨-, -, -, hgdt, -, hfaults⟩ := hall [] s₁ (by simp) (Lts.run_nil.mpr rfl)
  obtain ⟨t, ht⟩ := hfaults 13 (some 0) (by decide) (by decide) rfl
    (by rw [hgdt, hds, dataUsable_d3Sel]) sampleScratch
  exact ⟨s₁, t, htp, ht⟩

/-! ## The trace of userland -/

/-- `push %ebp` -/
def pushEbp (c : Cpu) : UserInstr where
  regs := { c with esp := c.esp - 4, eip := c.eip + 1 }
  stores := Flat.wordStores (c.esp - 4) c.ebp

/-- `mov %esp, %ebp` -/
def movEbpEsp (c : Cpu) : UserInstr where
  regs := { c with ebp := c.esp, eip := c.eip + 2 }
  stores := []

/-- The first word that the processor pushes. -/
theorem read32_reported_ss (img : Image) (σ : Scratch) (top a : Word) (hcpl : s.cpu.cpl ≠ 0)
    (herr : err.isSome = hasErrorCode v) :
    (reported img σ s top a v err).mem.read32 (top - 4) = s.cpu.ss.setWidth 32 := by
  have hload := congrArg IntCtx.words (load_reported img σ top a hcpl herr)
  rw [IntCtx.words_load] at hload
  have hslice := Mem.readWords_slice (reported img σ s top a v err).mem
    (reported img σ s top a v err).cpu.eax (k := 14) (j := 1) (n := intCtxWords) (by decide)
  have haddr : (reported img σ s top a v err).cpu.eax + BitVec.ofNat 32 (4 * 14) = top - 4 := by
    simp only [reported, Mem.below]
    bv_omega
  rw [hload, haddr] at hslice
  exact (List.cons.inj hslice).1

/-- The word at the top is above everything that the kernel touches. -/
theorem read32_reported_top (img : Image) (σ : Scratch) (top a : Word) (hcpl : s.cpu.cpl ≠ 0)
    (herr : err.isSome = hasErrorCode v) :
    (reported img σ s top a v err).mem.read32 top = s.mem.read32 top := by
  have hdepth := img.depth_le
  have hlen : (pushed s.cpu top v err).length = 15 := by rw [pushed_eq hcpl herr]; rfl
  refine Mem.read32_congr fun b hb => ?_
  simp only [reported]
  rw [Mem.blit_not_within (by simp only [Within, Mem.below] at *; bv_omega),
    Mem.pushWords_not_within (by rw [hlen]; simp only [Within, Mem.below] at *; bv_omega)
      (by rw [hlen]; decide)]

/-- In tp3 the trace of the fault says nothing of `userland`: the processor has pushed the
frame of the exception where `userland` had its own. The first address it prints is the
frame pointer of `start`, and the walk goes on at 0x23, the stack selector of level 3. -/
theorem trace_of_userland (hent : Entered img s₀) (σ σ' : Scratch) (kernelStart : Word)
    (hstart : frameInBounds kernelStart (s₀.cpu.esp - 8) = true) :
    ∃ s₁ s₂ t, tp img σ s₀ = some s₁ ∧
      Lts.run userStep s₁ [pushEbp s₁.cpu, movEbpEsp (pushEbp s₁.cpu).regs] = some s₂ ∧
      s₂.mem.read32 s₂.cpu.ebp = s₀.cpu.esp - 4 ∧
      Faults img σ' s₂ (s₀.cpu.esp - 4) 13 (some 0) t ∧
      ∀ fuel, stackTrace kernelStart t.mem s₂.cpu.ebp (fuel + 1)
        = (stackTraceLoop kernelStart t.mem 0x23 fuel).map fun out =>
            ⟨"\n-= Stack Trace =-\n", []⟩ :: ⟨"%p\n", [.word s₀.cpu.ebp]⟩ :: out := by
  obtain ⟨s', hopen, hopened⟩ := hent.opened σ
  obtain ⟨s₁, hlaunch, h₁⟩ := hopened.launched hent.stack .ebp σ
  have hesp : s₁.cpu.esp = s₀.cpu.esp - 4 := h₁.esp
  have hnear (w : Word × Byte) (hw : w ∈ (pushEbp s₁.cpu).stores) :
      NearTop (s₀.cpu.esp - 4) w.1 := by
    have hword := Flat.within_of_mem_wordStores hw
    simp only [hesp, NearTop, Within] at *
    bv_omega
  have hspare : (pushEbp s₁.cpu).Spares img := fun w hw hb =>
    hent.stack.not_kept (hnear w hw) hb
  have hpush := h₁.ring3.userStep_eq h₁.segs (i := pushEbp s₁.cpu) rfl
  have hring := h₁.ring3.user hspare hpush
  have hmov := hring.userStep_eq (segs_user h₁.installed.gdt hpush)
    (i := movEbpEsp (pushEbp s₁.cpu).regs) rfl
  have hring₂ := hring.user (by intro w hw; cases hw) hmov
  have herr : (some (0 : Word)).isSome = hasErrorCode 13 := rfl
  have hfault := hring₂.faults hent.stack rfl (by decide) (by decide) herr (congrArg _ h₁.ds) σ'
  have hcpl : (3 : BitVec 2) ≠ 0 := by decide
  have hss := read32_reported_ss img σ' (s₀.cpu.esp - 4)
    (img.idtTrampoline + BitVec.ofNat 32 (16 * 13)) (hring₂.cpl ▸ hcpl) herr
  have htop := read32_reported_top img σ' (s₀.cpu.esp - 4)
    (img.idtTrampoline + BitVec.ofNat 32 (16 * 13)) (hring₂.cpl ▸ hcpl) herr
  have hebp : s₁.cpu.esp - 4 = s₀.cpu.esp - 8 := by rw [hesp]; bv_omega
  have habove : (Flat.storeAll s₁.mem (pushEbp s₁.cpu).stores).read32 (s₀.cpu.esp - 4)
      = s₁.mem.read32 (s₀.cpu.esp - 4) := by
    unfold pushEbp
    rw [Flat.storeAll_wordStores]
    refine Mem.read32_write32_of_disjoint ?_ ?_ <;> bv_omega
  refine ⟨s₁, _, _, Option.bind_eq_some_iff.mpr ⟨s', hopen, hlaunch⟩,
    Lts.run_cons.mpr ⟨_, hpush, Lts.run_cons.mpr ⟨_, hmov, Lts.run_nil.mpr rfl⟩⟩, ?_, hfault, ?_⟩
  · have hframe : (Flat.storeAll s₁.mem (pushEbp s₁.cpu).stores).read32 (s₁.cpu.esp - 4)
        = s₁.cpu.ebp := by
      unfold pushEbp
      rw [Flat.storeAll_wordStores, Mem.read32_write32]
    exact hframe.trans h₁.ebp
  · intro fuel
    have hsaved := htop.trans (habove.trans h₁.saved)
    have hsel : s₁.cpu.ss.setWidth 32 = (0x23 : Word) := by rw [h₁.ss]; rfl
    have h4 : s₀.cpu.esp - 8 = s₀.cpu.esp - 4 - 4 := by bv_omega
    have h8 : s₀.cpu.esp - 8 + 4 = s₀.cpu.esp - 4 := by bv_omega
    change stackTrace kernelStart _ (s₁.cpu.esp - 4) (fuel + 1) = _
    unfold stackTrace
    rw [hebp, stackTraceLoop, if_pos hstart, h8, hsaved, h4, hss]
    change Option.map _ (Option.map _
      (stackTraceLoop kernelStart _ (s₁.cpu.ss.setWidth 32) fuel)) = _
    rw [hsel, Option.map_map]
    rfl

/-- The kernel begins at 0x302000, right above its stack. -/
theorem trace_of_userland_sample :
    ∃ s₂ t : Flat, s₂.mem.read32 s₂.cpu.ebp = 0x301fdc ∧ ∀ fuel,
      stackTrace 0x302000 t.mem s₂.cpu.ebp (fuel + 1)
        = (stackTraceLoop 0x302000 t.mem 0x23 fuel).map fun out =>
            ⟨"\n-= Stack Trace =-\n", []⟩ :: ⟨"%p\n", [.word 0x301ff0]⟩ :: out := by
  obtain ⟨s₁, s₂, t, -, -, hframe, -, htrace⟩ := trace_of_userland entered_sample sampleScratch
    sampleScratch 0x302000 (by decide)
  exact ⟨s₂, t, hframe, htrace⟩

end Tp3

end SecOS
