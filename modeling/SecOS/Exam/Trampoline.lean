-- SUMMARY: The default interrupt path: from the entry of a vector through the acknowledgement to intr_hdlr, and back to the interrupted code.
import SecOS.Exam.Exec
import SecOS.Exam.Gates

/-!
# The default interrupt path

An entry of `idt_trampoline` pushes the vector (and a dummy error code), the
acknowledging entries end the interrupt at the controllers on the way, and
`idt_common` pushes the registers. What then lies on the stack is the `int_ctx_t`
that `intr_hdlr` gets, and `resume_from_intr` takes it down again.
-/

namespace SecOS

open X86

namespace Machine

variable {img : Image} {σ : Scratch} {s : Machine} {k : Nat}

/-! ## From the entry to the call -/

/-- What entry `v` pushes. -/
def stubWords (v : Nat) : List Word :=
  if hasErrorCode v then [BitVec.ofNat 32 v] else [-1, BitVec.ofNat 32 v]

/-- The ends of interrupt sent on the way. -/
def ackWrites (v : Nat) : List PortWrite :=
  if 32 ≤ v ∧ v < 40 then [⟨.idt, pic1, picEoi⟩]
  else if 40 ≤ v ∧ v < 48 then [⟨.idt, pic2, picEoi⟩, ⟨.idt, pic1, picEoi⟩]
  else []

def acked (s : Machine) (v : Nat) : Machine :=
  { s with
    pics := (ackWrites v).foldl (fun p w => p.out w.port w.value) s.pics
    ports := s.ports ++ ackWrites v }

theorem acked_master {v : Nat} (h : 32 ≤ v ∧ v < 40) : s.acked v = s.outb .idt picEoi pic1 := by
  rw [acked, ackWrites, if_pos h]
  rfl

theorem acked_slave {v : Nat} (h : 40 ≤ v ∧ v < 48) :
    s.acked v = (s.outb .idt picEoi pic2).outb .idt picEoi pic1 := by
  rw [acked, ackWrites, if_neg (by omega), if_pos h, outb, outb, List.append_assoc]
  rfl

theorem acked_other {v : Nat} (h : v < 32 ∨ 48 ≤ v) : s.acked v = s := by
  rw [acked, ackWrites, if_neg (by omega), if_neg (by omega), List.append_nil]
  rfl

/-- At the call of `intr_hdlr`, when the machine was `s` at the entry. -/
def reported (img : Image) (s : Machine) (v : Nat) : Machine :=
  let ws := stubWords v
  let sp := Mem.below s.cpu.esp ws.length
  { s.acked v with
    cpu := { s.cpu with
      esp := Mem.below sp 8, eax := Mem.below sp 8
      eip := img.addr ⟨.idtText, 10⟩, shadow := false }
    mem := s.mem.pushWords s.cpu.esp (ws ++ { s.cpu with esp := sp }.gprs) }

/-- `idt_common` stores the registers and points EAX at them. -/
theorem straight_idtCommon (h : s.At img idtCommon) (hoff : s.IntrOff) :
    Straight img IntrOff 2 s
      { s with
        cpu := { s.cpu with
          esp := Mem.below s.cpu.esp 8, eax := Mem.below s.cpu.esp 8
          eip := img.addr ⟨.idtText, 10⟩, shadow := false }
        mem := s.mem.pushWords s.cpu.esp s.cpu.gprs } :=
  straight_off [.pusha, .mov .eax .esp] h rfl hoff (by decide)

/-- `ack_pic1` borrows EAX and ends the interrupt at the master. -/
theorem straight_ackPic1 (h : s.At img ackPic1) (hoff : s.IntrOff) :
    Straight img IntrOff 4 s
      { s.outb .idt picEoi pic1 with
        cpu := { s.cpu with eip := img.addr idtCommon, shadow := false }
        mem := s.mem.write32 (s.cpu.esp - 4) s.cpu.eax } := by
  have h1 := straight_off [.push .eax, .movAl 0x20] h rfl hoff (by decide)
  have h2 := h1.trans (straight_outAl eoiPic1 0x20 (at_afterOps h) rfl hoff)
  have h3 := h2.trans (straight_off [.pop .eax] (b := .idtText) (n := 7)
    (by exact ⟨rfl, h.cpl⟩) rfl hoff (by decide))
  simpa [afterOps, Op.eval, Cpu.set, Cpu.get, outb, jump, writerOf, field_setField, pic1, picEoi,
    idtCommon, eoiPic1] using h3

/-- `ack_pic2` does so at the slave first. -/
theorem straight_ackPic2 (h : s.At img ackPic2) (hoff : s.IntrOff) :
    Straight img IntrOff 6 s
      { (s.outb .idt picEoi pic2).outb .idt picEoi pic1 with
        cpu := { s.cpu with eip := img.addr idtCommon, shadow := false }
        mem := s.mem.write32 (s.cpu.esp - 4) s.cpu.eax } := by
  have h1 := straight_off [.push .eax, .movAl 0x20] h rfl hoff (by decide)
  have h2 := h1.trans (straight_outAl ⟨.idtText, 2⟩ 0xa0 (at_afterOps h) rfl hoff)
  have h3 := h2.trans (straight_jmp ⟨.idtText, 3⟩ eoiPic1 (by exact ⟨rfl, h.cpl⟩) rfl hoff)
  have h4 := h3.trans (straight_outAl eoiPic1 0x20 (by exact ⟨rfl, h.cpl⟩) rfl hoff)
  have h5 := h4.trans (straight_off [.pop .eax] (b := .idtText) (n := 7)
    (by exact ⟨rfl, h.cpl⟩) rfl hoff (by decide))
  simpa [afterOps, Op.eval, Cpu.set, Cpu.get, outb, jump, writerOf, field_setField, pic1, pic2,
    picEoi, idtCommon, eoiPic1] using h5

/-- The text of an entry. -/
theorem text_stub (v : Fin 256) : text (.stub v) = stubOf v := by
  rw [text, getElem?_idtStubs v.isLt, Option.getD_some]

/-- The machine at `idt_common`, when it was `s` at an entry, but for a word that an
acknowledgement may have left below the stack pointer. -/
def atCommon (img : Image) (s : Machine) (v : Nat) : Machine :=
  let ws := stubWords v
  { s.acked v with
    cpu := { s.cpu with
      esp := Mem.below s.cpu.esp ws.length, eip := img.addr idtCommon, shadow := false }
    mem := s.mem.pushWords s.cpu.esp ws }

theorem straight_atCommon (img : Image) (v : Nat) (h : s.cpu.cpl = 0) (hoff : s.IntrOff) :
    Straight img IntrOff 2 (s.atCommon img v) (s.reported img v) := by
  have hend := straight_idtCommon (s := s.atCommon img v) ⟨rfl, h⟩ hoff
  simp only [reported, Mem.pushWords_append]
  exact hend

/-- The word an acknowledgement leaves below the stack pointer is overwritten. -/
theorem straight_atCommon_acked (img : Image) (v : Nat) (h : s.cpu.cpl = 0)
    (hoff : s.IntrOff) :
    Straight img IntrOff 2
      { s.atCommon img v with
        mem := (s.atCommon img v).mem.write32 ((s.atCommon img v).cpu.esp - 4) s.cpu.eax }
      (s.reported img v) := by
  have hend := straight_idtCommon (s := { s.atCommon img v with
    mem := (s.atCommon img v).mem.write32 ((s.atCommon img v).cpu.esp - 4) s.cpu.eax }) ⟨rfl, h⟩
    hoff
  have hgprs : ((s.atCommon img v).mem.write32 ((s.atCommon img v).cpu.esp - 4) s.cpu.eax).pushWords
      (s.atCommon img v).cpu.esp (s.atCommon img v).cpu.gprs
      = (s.atCommon img v).mem.pushWords (s.atCommon img v).cpu.esp (s.atCommon img v).cpu.gprs :=
    Mem.pushWords_write32 ..
  rw [hgprs] at hend
  simp only [reported, Mem.pushWords_append]
  exact hend

/-- An entry that goes on to `l` after its pushes. -/
theorem straight_stubPlain {v : Fin 256} {l : Pc} (h : s.At img ⟨.stub v, 0⟩)
    (hoff : s.IntrOff) (htext : text (.stub v) = stubPlain v l) :
    Straight img IntrOff 3 s
      { s with
        cpu := { s.cpu with esp := Mem.below s.cpu.esp 2, eip := img.addr l, shadow := false }
        mem := s.mem.pushWords s.cpu.esp [-1, BitVec.ofNat 32 v] } := by
  have h1 := straight_off [.pushi (-1), .pushi (BitVec.ofNat 32 v)] h htext hoff (by simp)
  have h2 := h1.trans (straight_jmp ⟨.stub v, 2⟩ l (at_afterOps h)
    (instr?_of_drop (n := 2) (by rw [htext]; rfl)) hoff)
  simp only [afterOps, evalOps_cons, evalOps_nil, Op.eval, jump, Mem.pushWords,
    ← Mem.below_one, Mem.below_below] at h2 ⊢
  exact h2

/-- From its entry an interrupt gets to `intr_hdlr` with the whole context pushed. -/
theorem straight_stub (img : Image) {v : Fin 256} (h : s.At img ⟨.stub v, 0⟩) (hoff : s.IntrOff)
    (hv : v.val < 20 ∨ 32 ≤ v.val) :
    ∃ n ≤ 11, Straight img IntrOff n s (s.reported img v) := by
  have hrsv : ¬ (20 ≤ v.val ∧ v.val < 32) := by omega
  by_cases herr : hasErrorCode v = true
  · have hlt : v.val < 20 := by
      simp only [hasErrorCode, Bool.or_eq_true, beq_iff_eq, Bool.and_eq_true, decide_eq_true_eq]
        at herr
      omega
    have htext : text (.stub v) = stubCode v := by
      rw [text_stub, stubOf, if_neg hrsv, if_pos herr]
    have hacked : s.acked v = s := acked_other (by omega)
    have h1 := straight_off [.pushi (BitVec.ofNat 32 v)] h htext hoff (by simp)
    have h2 := h1.trans (straight_jmp ⟨.stub v, 1⟩ idtCommon (at_afterOps h)
      (instr?_of_drop (n := 1) (by rw [htext]; rfl)) hoff)
    have hcommon := straight_atCommon img v h.cpl hoff
    simp only [atCommon, hacked, stubWords, herr] at hcommon
    exact ⟨4, by omega, h2.trans hcommon⟩
  · have hws : stubWords v = [-1, BitVec.ofNat 32 v] := if_neg herr
    have htext : text (.stub v) = stubPlain v (stubTarget v) := by
      rw [text_stub, stubOf, if_neg hrsv, if_neg herr]
    have hstub := straight_stubPlain h hoff htext
    by_cases h1 : 32 ≤ v.val ∧ v.val < 40
    · rw [stubTarget, if_pos h1] at hstub
      have hack := hstub.trans (straight_ackPic1 (by exact ⟨rfl, h.cpl⟩) hoff)
      have hcommon := straight_atCommon_acked img v h.cpl hoff
      simp only [atCommon, hws, acked_master h1] at hcommon
      exact ⟨9, by omega, hack.trans hcommon⟩
    by_cases h2 : 40 ≤ v.val ∧ v.val < 48
    · rw [stubTarget, if_neg h1, if_pos h2] at hstub
      have hack := hstub.trans (straight_ackPic2 (by exact ⟨rfl, h.cpl⟩) hoff)
      have hcommon := straight_atCommon_acked img v h.cpl hoff
      simp only [atCommon, hws, acked_slave h2] at hcommon
      exact ⟨11, by omega, hack.trans hcommon⟩
    · rw [stubTarget, if_neg h1, if_neg h2] at hstub
      have hcommon := straight_atCommon img v h.cpl hoff
      simp only [atCommon, hws, acked_other (s := s) (v := v.val) (by omega)] at hcommon
      exact ⟨5, by omega, hstub.trans hcommon⟩

/-! ## The call and the way back -/

/-- DS can be used to reach the C objects. -/
def dataUsable (s : Machine) : Bool := s.gdt.dataUsable s.cpu.ds

theorem callC_not_usable {f : CFun} {ret : Word} (h : ¬ s.dataUsable = true) :
    s.callC img σ f ret = none := by
  have hdata : (!s.dataUsable) = true := by simpa using h
  exact if_pos hdata

/-- The machine after a call at `pc` that changed nothing but what every call may. -/
def called (img : Image) (σ : Scratch) (s : Machine) (pc : Pc) : Machine :=
  { s with
    mem := s.mem.blit (s.cpu.esp - BitVec.ofNat 32 img.cDepth) img.cDepth σ.stack
    cpu := { s.cpu with
      eax := σ.eax, ecx := σ.ecx, edx := σ.edx, eip := img.addr pc.next, shadow := false
      eflags := Eflags.blend s.cpu.eflags σ.flags Eflags.status } }

/-- The words at and above the stack pointer survive a call. -/
theorem called_readWords {pc : Pc} {n : Nat} (hn : n ≤ 64) :
    (s.called img σ pc).mem.readWords s.cpu.esp n = s.mem.readWords s.cpu.esp n := by
  have := img.cDepth_le
  exact Mem.readWords_blit_below (by omega)

theorem callC_intrHdlr (img : Image) (σ : Scratch) (pc : Pc) (hctx : s.cpu.eax = s.cpu.esp)
    (hdata : s.dataUsable = true) :
    s.callC img σ .intrHdlr (img.addr pc.next)
      = match intrHdlr s.cpu (IntCtx.load s.mem s.cpu.esp) with
        | .ret out => some { s.called img σ pc with console := s.console ++ out }
        | .fatal _ => none := by
  have hload := load_enterC img σ s (img.addr pc.next)
  have hcpu : (enterC img σ s (img.addr pc.next)).cpu = s.cpu := rfl
  rw [dataUsable] at hdata
  simp only [callC, hdata, hctx, hload, hcpu, Bool.not_true, Bool.false_eq_true, if_false]
  cases intrHdlr s.cpu (IntCtx.load s.mem s.cpu.esp) with
  | fatal out => rfl
  | ret out =>
    simp only [leaveC, called, blit_enterC]
    rfl

/-- `resume_from_intr`: the registers come back, the vector and the error code go. -/
theorem handle_resume {edi esi ebp esp ebx edx ecx eax : Word} (h : s.At img resumeFromIntr)
    (hoff : s.IntrOff)
    (hw : s.mem.readWords s.cpu.esp 8 = [edi, esi, ebp, esp, ebx, edx, ecx, eax]) :
    s.handle img σ (k + 3)
      = (Cpu.iret s.gdt { s.cpu with
          eax, ecx, edx, ebx, ebp, esi, edi, esp := s.cpu.esp + 40
          eip := img.addr ⟨.idtText, 13⟩, shadow := false } s.mem).map fun cpu =>
            { s with cpu } := by
  have hpopa : { s.cpu with shadow := false }.popa s.mem = _ := Cpu.popa_eq hw
  have hops : evalOps [.popa, .addEsp 8] s.cpu s.mem
      = ({ s.cpu with
            eax, ecx, edx, ebx, ebp, esi, edi, esp := s.cpu.esp + 40, shadow := false },
          s.mem) := by
    simp only [evalOps_cons, evalOps_nil, Op.eval, hpopa, BitVec.add_assoc]
    rfl
  refine (straight_off [.popa, .addEsp 8] h rfl hoff (by decide)).handle.trans ?_
  refine (handle_iret ⟨.idtText, 13⟩ (at_afterOps h) rfl).trans ?_
  simp only [afterOps, hops]

/-! ## The interrupted context -/

/-- A processor state that code can run in: its selectors are those of its level,
which is 0 or 3, and it is not in virtual-8086 mode. -/
structure Running (gdt : Gdt) (c : Cpu) : Prop where
  level : c.cpl = 0 ∨ c.cpl = 3
  code : gdt.codeOk c.cpl c.cs = true
  stack : c.cpl = 3 → gdt.stackOk 3 c.ss = true
  vm : c.eflags &&& Eflags.vm = 0

/-- Where the processor begins to push when it enters a handler. -/
def frameTop (s : Machine) : Word := if s.cpu.cpl = 0 then s.cpu.esp else s.tss.s0.esp

/-- What entering a handler makes of the machine, for a gate of known offset. -/
def entered (s : Machine) (a : Word) (err : Option Word) : Machine :=
  let ws := s.cpu.trapFrame err
  { s with
    cpu := { s.cpu with
      esp := Mem.below s.frameTop ws.length, ss := if s.cpu.cpl = 0 then s.cpu.ss else s.tss.s0.ss
      cs := c0Sel, eip := a, eflags := s.cpu.eflags &&& ~~~Eflags.gateClear, shadow := false }
    mem := s.mem.pushWords s.frameTop ws }

theorem intrOff_entered {a : Word} {err : Option Word} : (s.entered a err).IntrOff :=
  Eflags.and_not_and _ (by decide)

/-- All that lies on the stack at the call of `intr_hdlr`, in the order it was pushed. -/
def pushed (s : Machine) (v : Nat) (err : Option Word) : List Word :=
  let frame := s.cpu.trapFrame err ++ stubWords v
  frame ++ { s.cpu with esp := Mem.below s.frameTop frame.length }.gprs

theorem reported_entered (img : Image) (s : Machine) (v : Nat) (err : Option Word) (a : Word) :
    ((s.entered a err).reported img v).mem = s.mem.pushWords s.frameTop (s.pushed v err)
      ∧ ((s.entered a err).reported img v).cpu.esp
          = Mem.below s.frameTop (s.pushed v err).length := by
  simp only [reported, entered, pushed, Mem.pushWords_append, Mem.below_below, List.length_append,
    Cpu.gprs, List.length_cons, List.length_nil]
  exact ⟨trivial, trivial⟩

/-- The context of an interrupt as `int_ctx_t` names its fields. Without a change of
level the two last ones are whatever lies above. -/
def contextOf (s : Machine) (v : Nat) (err : Option Word) : IntCtx where
  gpr :=
    { edi := s.cpu.edi, esi := s.cpu.esi, ebp := s.cpu.ebp, ebx := s.cpu.ebx, edx := s.cpu.edx
      ecx := s.cpu.ecx, eax := s.cpu.eax
      esp := Mem.below s.frameTop (s.cpu.trapFrame err ++ stubWords v).length }
  nr := BitVec.ofNat 32 v
  err := err.getD (-1)
  eip := s.cpu.eip
  cs := s.cpu.cs.setWidth 32
  eflags := s.cpu.eflags
  esp := if s.cpu.cpl = 0 then s.mem.read32 s.frameTop else s.cpu.esp
  ss := if s.cpu.cpl = 0 then s.mem.read32 (s.frameTop + 4) else s.cpu.ss.setWidth 32

/-- The error code, or the dummy one, and the vector. -/
theorem errWords_eq {v : Nat} {err : Option Word} (herr : err.isSome = hasErrorCode v) :
    err.toList ++ stubWords v = [err.getD (-1), BitVec.ofNat 32 v] := by
  cases err with
  | none =>
    have hno : ¬ hasErrorCode v = true := by rw [← herr]; decide
    rw [stubWords, if_neg hno]
    rfl
  | some e =>
    have hyes : hasErrorCode v = true := herr.symm
    rw [stubWords, if_pos hyes]
    rfl

/-- Read upwards from the stack pointer, what was pushed is the context. -/
theorem readWords_pushed {v : Nat} {err : Option Word} (herr : err.isSome = hasErrorCode v) :
    (s.mem.pushWords s.frameTop (s.pushed v err)).readWords
        (Mem.below s.frameTop (s.pushed v err).length) intCtxWords
      = (s.contextOf v err).words := by
  have hw := errWords_eq herr
  by_cases hcpl : s.cpu.cpl = 0
  · have hframe : s.cpu.trapFrame err ++ stubWords v
        = [s.cpu.eflags, s.cpu.cs.setWidth 32, s.cpu.eip, err.getD (-1), BitVec.ofNat 32 v] := by
      rw [Cpu.trapFrame, if_pos hcpl, List.nil_append, List.append_assoc, hw]
      rfl
    have hlen : (s.pushed v err).length = 13 := by rw [pushed, hframe]; rfl
    have hbelow : Mem.below s.frameTop 13 + BitVec.ofNat 32 (4 * 13) = s.frameTop := by
      simp only [Mem.below]; bv_omega
    have hread := Mem.readWords_pushWords s.mem s.frameTop (s.pushed v err) (by rw [hlen]; decide)
    have habove := Mem.readWords_pushWords_above s.mem s.frameTop (s.pushed v err) (n := 2)
      (by rw [hlen]; decide)
    rw [hlen] at hread ⊢
    rw [show intCtxWords = 13 + 2 from rfl, Mem.readWords_append, hread, hbelow, habove]
    simp only [pushed, hframe, contextOf, IntCtx.words, hcpl, if_true, Mem.readWords]
    rfl
  · have hframe : s.cpu.trapFrame err ++ stubWords v
        = [s.cpu.ss.setWidth 32, s.cpu.esp, s.cpu.eflags, s.cpu.cs.setWidth 32, s.cpu.eip,
            err.getD (-1), BitVec.ofNat 32 v] := by
      rw [Cpu.trapFrame, if_neg hcpl, List.append_assoc, List.append_assoc, hw]
      rfl
    have hlen : (s.pushed v err).length = 15 := by rw [pushed, hframe]; rfl
    have hread := Mem.readWords_pushWords s.mem s.frameTop (s.pushed v err) (by rw [hlen]; decide)
    rw [hlen] at hread ⊢
    rw [show intCtxWords = 15 from rfl, hread]
    simp only [pushed, hframe, contextOf, IntCtx.words, hcpl, if_false]
    rfl

/-- The processor state a handler gives back: that of the interrupt, with the data
segments that level 3 cannot have cleared. -/
def restored (gdt : Gdt) (c : Cpu) : Cpu :=
  if c.cpl = 0 then { c with shadow := false }
  else { c with
    shadow := false
    ds := gdt.outerData 3 c.ds, es := gdt.outerData 3 c.es
    fs := gdt.outerData 3 c.fs, gs := gdt.outerData 3 c.gs }

/-- The machine after the default path, when `intr_hdlr` printed `out`. -/
def returned (img : Image) (σ : Scratch) (s : Machine) (v : Nat) (err : Option Word)
    (out : List Line) : Machine :=
  let ws := s.pushed v err
  { s.acked v with
    cpu := restored s.gdt s.cpu
    mem := (s.mem.pushWords s.frameTop ws).blit
      (Mem.below s.frameTop ws.length - BitVec.ofNat 32 img.cDepth) img.cDepth σ.stack
    console := s.console ++ out }

theorem load_reported (img : Image) (s : Machine) (a : Word) {v : Nat} {err : Option Word}
    (herr : err.isSome = hasErrorCode v) :
    IntCtx.load ((s.entered a err).reported img v).mem
        ((s.entered a err).reported img v).cpu.esp = s.contextOf v err := by
  obtain ⟨hmem, hesp⟩ := reported_entered img s v err a
  rw [IntCtx.load, hmem, hesp, readWords_pushed herr, IntCtx.ofWords_words]

/-- The `iret` of the default path gives the interrupted state back. -/
theorem iret_restored {v : Nat} {err : Option Word} {m : Mem} {f sp : Word}
    (hrun : Running s.gdt s.cpu) (herr : err.isSome = hasErrorCode v)
    (hsp : sp = Mem.below s.frameTop (s.pushed v err).length)
    (hw : m.readWords sp 15 = (s.contextOf v err).words)
    (hnt : f &&& Eflags.nt = 0) (a : Word) (ss0 : Sel) :
    Cpu.iret s.gdt
      { s.cpu with
        esp := sp + 40, ss := if s.cpu.cpl = 0 then s.cpu.ss else ss0
        cs := c0Sel, eip := a, eflags := f, shadow := false } m
      = some (restored s.gdt s.cpu) := by
  have hcs : ((s.cpu.cs.setWidth 32 : Word).setWidth 16 : Sel) = s.cpu.cs := by simp
  have hss : ((s.cpu.ss.setWidth 32 : Word).setWidth 16 : Sel) = s.cpu.ss := by simp
  have h5 : m.readWords (sp + 40) 5
      = [s.cpu.eip, s.cpu.cs.setWidth 32, s.cpu.eflags, (s.contextOf v err).esp,
          (s.contextOf v err).ss] := by
    have hslice := Mem.readWords_slice m sp (k := 10) (j := 5) (n := 15) (by omega)
    rw [hw] at hslice
    exact hslice
  rw [restored]
  obtain h0 | h3 := hrun.level
  · have h3 : m.readWords (sp + 40) 3 = [s.cpu.eip, s.cpu.cs.setWidth 32, s.cpu.eflags] := by
      have hslice := Mem.readWords_slice m (sp + 40) (k := 0) (j := 3) (n := 5) (by omega)
      rw [h5, Nat.mul_zero, BitVec.ofNat_eq_ofNat, BitVec.add_zero] at hslice
      exact hslice
    have hlen : (s.pushed v err).length = 13 := by
      have hlen := congrArg List.length (errWords_eq herr)
      simp only [List.length_append, List.length_cons, List.length_nil] at hlen
      simp only [pushed, Cpu.trapFrame, if_pos h0, List.nil_append, List.length_append, Cpu.gprs,
        List.length_cons, List.length_nil]
      omega
    have hesp : sp + 40 + 12 = s.cpu.esp := by
      rw [hsp, hlen, frameTop, if_pos h0]
      simp only [Mem.below]
      bv_omega
    refine (Cpu.iret_inner (c := { s.cpu with
      esp := sp + 40, ss := if s.cpu.cpl = 0 then s.cpu.ss else ss0
      cs := c0Sel, eip := a, eflags := f, shadow := false }) h3 hnt hrun.vm
      (by rw [hcs]; exact h0) (by rw [hcs, ← h0]; exact hrun.code)).trans ?_
    simp only [hcs, hesp, h0, if_true]
  · have hne : ¬ s.cpu.cpl = 0 := by rw [h3]; decide
    simp only [contextOf, hne, if_false] at h5
    refine (Cpu.iret_outer (c := { s.cpu with
      esp := sp + 40, ss := if s.cpu.cpl = 0 then s.cpu.ss else ss0
      cs := c0Sel, eip := a, eflags := f, shadow := false }) h5 hnt hrun.vm
      (by rw [hcs]; exact h3) (by rw [hcs, ← h3]; exact hrun.code)
      (by rw [hss]; exact hrun.stack h3)).trans ?_
    simp only [hcs, hss, hne, if_false]

/-- Once `intr_hdlr` has returned, the interrupted state is restored. -/
theorem handle_called {v : Nat} {err : Option Word} {a : Word} (hrun : Running s.gdt s.cpu)
    (herr : err.isSome = hasErrorCode v) (out : List Line) :
    { ((s.entered a err).reported img v).called img σ ⟨.idtText, 10⟩ with
        console := s.console ++ out }.handle img σ (k + 3)
      = some (s.returned img σ v err out) := by
  obtain ⟨hmem, hesp⟩ := reported_entered img s v err a
  have hw : (((s.entered a err).reported img v).called img σ ⟨.idtText, 10⟩).mem.readWords
      ((s.entered a err).reported img v).cpu.esp 15 = (s.contextOf v err).words := by
    rw [called_readWords (by omega), hmem, hesp]
    exact readWords_pushed herr
  have hgprs := (Mem.readWords_take _ _ (j := 8) (n := 15) (by omega)).trans
    (congrArg (List.take 8) hw)
  have hoff : Eflags.blend (s.cpu.eflags &&& ~~~Eflags.gateClear) σ.flags Eflags.status
      &&& Eflags.intr = 0 := by
    rw [Eflags.blend_and _ _ (by decide), Eflags.and_not_and _ (by decide)]
  refine (handle_resume (k := k) (s := { ((s.entered a err).reported img v).called img σ
    ⟨.idtText, 10⟩ with console := s.console ++ out }) ⟨rfl, cpl_c0Sel⟩ hoff hgprs).trans ?_
  have hiret := iret_restored (f := Eflags.blend (s.cpu.eflags &&& ~~~Eflags.gateClear) σ.flags
    Eflags.status) hrun herr hesp hw
    (by rw [Eflags.blend_and _ _ (by decide), Eflags.and_not_and _ (by decide)])
    (img.addr ⟨.idtText, 13⟩) s.tss.s0.ss
  refine (congrArg (Option.map fun cpu => { { ((s.entered a err).reported img v).called img σ
    ⟨.idtText, 10⟩ with console := s.console ++ out } with cpu }) hiret).trans ?_
  simp only [Option.map_some, returned, called, reported_entered]
  rfl

/-- From the entry of a vector to the interrupted code, in one piece. -/
theorem handle_trampoline {v : Fin 256} {err : Option Word} (hv : v.val < 20 ∨ 32 ≤ v.val)
    (herr : err.isSome = hasErrorCode v) (hrun : Running s.gdt s.cpu) :
    (s.entered (img.addr ⟨.stub v, 0⟩) err).handle img σ handlerFuel
      = if s.dataUsable = true then
          match intrHdlr s.cpu (s.contextOf v err) with
          | .ret out => some (s.returned img σ v err out)
          | .fatal _ => none
        else none := by
  have hat : (s.entered (img.addr ⟨.stub v, 0⟩) err).At img ⟨.stub v, 0⟩ := ⟨rfl, cpl_c0Sel⟩
  obtain ⟨n, hn, hstub⟩ := straight_stub img hat intrOff_entered hv
  obtain ⟨k, hk⟩ : ∃ k, handlerFuel = k + 4 + n :=
    ⟨handlerFuel - 4 - n, by simp only [handlerFuel]; omega⟩
  rw [hk, hstub.handle]
  refine (handle_call ⟨.idtText, 10⟩ .intrHdlr (k := k + 3)
    (by exact ⟨rfl, cpl_c0Sel⟩) rfl).trans ?_
  by_cases hdata : s.dataUsable = true
  · have hcall := callC_intrHdlr img σ ⟨.idtText, 10⟩
      (s := (s.entered (img.addr ⟨.stub v, 0⟩) err).reported img v) rfl hdata
    have hcr : intrHdlr ((s.entered (img.addr ⟨.stub v, 0⟩) err).reported img v).cpu
        (s.contextOf v err) = intrHdlr s.cpu (s.contextOf v err) := rfl
    rw [hcall, load_reported img s _ herr, hcr, if_pos hdata]
    cases intrHdlr s.cpu (s.contextOf v err) with
    | fatal out => rfl
    | ret out => exact handle_called hrun herr out
  · rw [callC_not_usable (s := (s.entered (img.addr ⟨.stub v, 0⟩) err).reported img v) hdata,
      if_neg hdata, Option.bind_none]

end Machine

end SecOS
