-- SUMMARY: The machine with requests accepted at every instruction boundary, handlers included, and the stretches of kernel code that run undisturbed in it.
import SecOS.Exam.Steps

/-!
# Instruction boundaries

In `step` a handler runs from its entry to its `iret` in one event. Here the kernel
takes one instruction at a time, and a request at the interrupt controllers may come
between any two of them, when the processor and the controllers let it through.
-/

namespace SecOS

open X86

namespace Machine

/-! ## Entering handlers -/

/-- `int $n` at level 3, up to the entry of the handler. -/
def raiseInt (s : Machine) (n : Fin 256) : Option Machine := do
  if s.cpu.cpl ≠ 3 then none else
  let g ← s.idt[n.val]?
  if g.dpl.ult s.cpu.cpl then s.interrupt 13 (some (BitVec.ofNat 32 (8 * n + 2)))
  else interrupt { s with cpu := { s.cpu with eip := s.cpu.eip + 2 } } n none

/-- Exceptions, and non-maskable interrupts, at level 3; within a handler none comes. -/
def raiseFault (s : Machine) (v : Nat) (err cr2 : Word) : Option Machine :=
  if s.cpu.cpl ≠ 3 ∨ 20 ≤ v then none else
  interrupt { s with cpu := { s.cpu with cr2 } } v (if hasErrorCode v then some err else none)

def raisePortOut (s : Machine) (port : BitVec 16) (bs : List Byte) : Option Machine :=
  if s.cpu.cpl ≠ 3 ∨ bs.length ∉ [1, 2, 4] then none else
  if s.ioPermitted port.toNat bs.length then some (s.outs port bs) else s.interrupt 13 (some 0)

def raisePortIn (s : Machine) (port : BitVec 16) (width : Nat) (value : Word) : Option Machine :=
  if s.cpu.cpl ≠ 3 ∨ width ∉ [1, 2, 4] then none else
  if s.ioPermitted port.toNat width then s.ins port width value
  else s.interrupt 13 (some 0)

end Machine

/-! ## Runs -/

inductive FineEvent where
  | user (u : Machine.UserStep)
  | int (n : Fin 256)
  | fault (v : Nat) (err cr2 : Word)
  | portOut (port : BitVec 16) (bs : List Byte)
  | portIn (port : BitVec 16) (width : Nat) (value : Word)
  /-- A request at a line of the controllers is accepted. -/
  | irq (n : Nat)
  /-- The kernel's next instruction. -/
  | exec (σ : Scratch)

def fineStep (img : Image) (s : Machine) : FineEvent → Option Machine
  | .user u => s.user u
  | .int n => s.raiseInt n
  | .fault v err cr2 => s.raiseFault v err cr2
  | .portOut port bs => s.raisePortOut port bs
  | .portIn port width value => s.raisePortIn port width value
  | .irq n => s.irq n
  | .exec σ => s.exec img σ

namespace Machine

variable {img : Image} {σ : Scratch} {s t : Machine} {cur : Option (Fin 2)} {k n : Nat}

/-- The event with its handler in one piece; instructions of the kernel are part of
one. -/
def wholeEvent (σ : Scratch) : FineEvent → Option Event
  | .user u => some (.user u)
  | .int n => some (.int n σ)
  | .fault v err cr2 => some (.fault v err cr2 σ)
  | .portOut port bs => some (.portOut port bs σ)
  | .portIn port width value => some (.portIn port width value σ)
  | .irq n => some (.irq n σ)
  | .exec _ => none

section WholeEvent

theorem softInt_eq (n : Fin 256) :
    s.softInt img σ n = (s.raiseInt n).bind (handle img σ handlerFuel) := by
  simp only [softInt, raiseInt, serve, Option.bind_eq_bind]
  split
  · rfl
  · cases s.idt[n.val]? with
    | none => rfl
    | some g =>
      simp only [Option.bind_some]
      split <;> rfl

theorem fault_eq (v : Nat) (err cr2 : Word) :
    s.fault img σ v err cr2 = (s.raiseFault v err cr2).bind (handle img σ handlerFuel) := by
  simp only [fault, raiseFault, serve, Option.bind_eq_bind]
  split <;> rfl

theorem portOut_eq {port : BitVec 16} {bs : List Byte}
    (hio : ¬ s.ioPermitted port.toNat bs.length = true) :
    s.portOut img σ port bs
      = (s.raisePortOut port bs).bind (handle img σ handlerFuel) := by
  simp only [portOut, raisePortOut, serve, if_neg hio, Option.bind_eq_bind]
  split <;> rfl

theorem portIn_eq {port : BitVec 16} {width : Nat} {value : Word}
    (hio : ¬ s.ioPermitted port.toNat width = true) :
    s.portIn img σ port width value
      = (s.raisePortIn port width value).bind (handle img σ handlerFuel) := by
  simp only [portIn, raisePortIn, serve, if_neg hio, Option.bind_eq_bind]
  split <;> rfl

variable (img s) in
/-- An event is over at once, or enters a handler. -/
theorem step_eq {e : FineEvent} {e' : Event} (he : wholeEvent σ e = some e') :
    step img s e' = fineStep img s e ∨
      step img s e' = (fineStep img s e).bind (handle img σ handlerFuel) := by
  cases e with
  | user u =>
    obtain rfl := Option.some.inj he
    exact .inl rfl
  | int n =>
    obtain rfl := Option.some.inj he
    exact .inr (softInt_eq n)
  | fault v err cr2 =>
    obtain rfl := Option.some.inj he
    exact .inr (fault_eq v err cr2)
  | portOut port bs =>
    obtain rfl := Option.some.inj he
    by_cases hio : s.ioPermitted port.toNat bs.length = true
    · left
      simp only [step, fineStep, portOut, raisePortOut, if_pos hio]
    · exact .inr (portOut_eq hio)
  | portIn port width value =>
    obtain rfl := Option.some.inj he
    by_cases hio : s.ioPermitted port.toNat width = true
    · left
      simp only [step, fineStep, portIn, raisePortIn, if_pos hio]
    · exact .inr (portIn_eq hio)
  | irq n =>
    obtain rfl := Option.some.inj he
    exact .inr rfl
  | exec σ' => cases he

/-- What comes of an event: at level 3 it is over, in a handler the handler remains. -/
theorem step_wholeEvent {e : FineEvent} {e' : Event} (he : wholeEvent σ e = some e')
    (hstep : fineStep img s e = some t) :
    step img s e' = some t ∨ step img s e' = t.handle img σ handlerFuel := by
  rcases step_eq img s he with h | h
  · exact .inl (h.trans hstep)
  · right
    rw [h, hstep, Option.bind_some]

/-- A handler that is not disturbed, one instruction after another. -/
theorem run_of_handle (h : s.handle img σ n = some t) :
    ∃ k, Lts.run (fineStep img) s (List.replicate k (.exec σ)) = some t := by
  induction n generalizing s with
  | zero => cases h
  | succ n ih =>
    simp only [handle, Option.bind_eq_bind, Option.bind_eq_some_iff] at h
    obtain ⟨pc, hpc, u, hexec, hrest⟩ := h
    obtain ⟨k, hk⟩ : ∃ k, Lts.run (fineStep img) u (List.replicate k (.exec σ)) = some t := by
      split at hrest
      · exact ⟨0, Lts.run_nil.mpr (Option.some.inj hrest)⟩
      · exact ih hrest
    exact ⟨k + 1, Lts.run_cons.mpr ⟨u, hexec, hk⟩⟩

/-- A step with a whole handler is a run of the machine with requests at every
boundary. -/
theorem run_of_step {e : Event} (hstep : step img s e = some t) :
    ∃ es, Lts.run (fineStep img) s es = some t := by
  obtain ⟨σ, e', he⟩ : ∃ σ e', wholeEvent σ e' = some e := by
    cases e with
    | user u => exact ⟨⟨0, 0, 0, 0, 0, 0, 0, 0, fun _ => 0⟩, .user u, rfl⟩
    | int n σ => exact ⟨σ, .int n, rfl⟩
    | fault v err cr2 σ => exact ⟨σ, .fault v err cr2, rfl⟩
    | portOut port bs σ => exact ⟨σ, .portOut port bs, rfl⟩
    | portIn port width value σ => exact ⟨σ, .portIn port width value, rfl⟩
    | irq n σ => exact ⟨σ, .irq n, rfl⟩
  rcases step_eq img s he with h | h
  · exact ⟨[e'], Lts.run_cons.mpr ⟨t, h ▸ hstep, Lts.run_nil.mpr rfl⟩⟩
  · obtain ⟨u, hu, hhandle⟩ := Option.bind_eq_some_iff.mp (h ▸ hstep)
    obtain ⟨k, hk⟩ := run_of_handle hhandle
    exact ⟨e' :: List.replicate k (.exec σ), Lts.run_cons.mpr ⟨u, hu, hk⟩⟩

/-- So all runs with whole handlers are among its runs. -/
theorem run_of_run {es : List Event} (hrun : Lts.run (step img) s es = some t) :
    ∃ es', Lts.run (fineStep img) s es' = some t := by
  induction es generalizing s with
  | nil => exact ⟨[], Lts.run_nil.mpr (Lts.run_nil.mp hrun)⟩
  | cons e es ih =>
    obtain ⟨u, hstep, hrest⟩ := Lts.run_cons.mp hrun
    obtain ⟨es₁, h₁⟩ := run_of_step hstep
    obtain ⟨es₂, h₂⟩ := ih hrest
    exact ⟨es₁ ++ es₂, Lts.run_append.mpr ⟨u, h₁, h₂⟩⟩

end WholeEvent

/-- A stretch of code is a run of the kernel's instructions. -/
theorem Straight.run {Q : Machine → Prop} (h : Straight img Q n s t) :
    Lts.run (fineStep img) s (List.replicate n (.exec σ)) = some t := by
  induction h with
  | nil s => exact Lts.run_nil.mpr rfl
  | cons hat hi hplain hq hexec hrest ih =>
    rw [List.replicate_succ]
    exact Lts.run_cons.mpr ⟨_, (exec_at hat hi).trans (hexec σ), ih⟩

/-! ## The saved context -/

/-- The next instruction calls `clock_interrupt_handler`, which is going to copy the
context that EAX points to into the running task. -/
structure AboutToSave (img : Image) (s : Machine) : Prop where
  cpl : s.cpu.cpl = 0
  pc : img.pcAt s.cpu.eip = some ⟨.clockInterruptIsr, 6⟩
  running : s.currentTaskIdx ≠ -1

/-- If a context is about to be saved, it is one of level 3. -/
def SavesTask (img : Image) (s : Machine) : Prop :=
  AboutToSave img s → (ctxRegs (IntCtx.load s.mem s.cpu.eax)).cs = c3Sel

theorem savesTask_of_at {pc : Pc} {i : Instr} (hat : s.At img pc) (hi : pc.instr? = some i)
    (hne : i ≠ .call .clockInterruptHandler) : SavesTask img s := by
  intro hsave
  have hpc := (pcAt_of_at hat hi).symm.trans hsave.pc
  rw [Option.some.inj hpc] at hi
  exact absurd (Option.some.inj hi).symm hne

theorem savesTask_of_cpl (h : s.cpu.cpl ≠ 0) : SavesTask img s :=
  fun hsave => absurd hsave.cpl h

/-! ## Undisturbed code -/

/-- Until a state with `P` is reached nothing but the kernel's own instructions can
happen, and none of them saves a context of level 0. -/
inductive Settles (img : Image) (P : Machine → Prop) : Machine → Prop where
  | done {s : Machine} (h : P s) : Settles img P s
  | next {s : Machine} (hcpl : s.cpu.cpl = 0) (hwait : s.cpu.interruptible = false)
      (hsave : SavesTask img s) (hnext : ∀ σ t, s.exec img σ = some t → Settles img P t) :
      Settles img P s

section Settles

variable {P : Machine → Prop}

theorem IntrOff.interruptible (h : s.IntrOff) : s.cpu.interruptible = false :=
  Cpu.not_interruptible (Cpu.intrFlag_eq_false h)

theorem Settles.instr {pc : Pc} {i : Instr} (hat : s.At img pc) (hi : pc.instr? = some i)
    (hwait : s.cpu.interruptible = false) (hsave : SavesTask img s)
    (hnext : ∀ σ t, s.execInstr img σ pc i = some t → Settles img P t) : Settles img P s :=
  .next hat.cpl hwait hsave fun σ t h => hnext σ t ((exec_at hat hi).symm.trans h)

theorem Settles.mono {P' : Machine → Prop} (h : Settles img P s) (hP : ∀ t, P t → P' t) :
    Settles img P' s := by
  induction h with
  | done h => exact .done (hP _ h)
  | next hcpl hwait hsave hnext ih => exact .next hcpl hwait hsave ih

/-- Plain instructions with interrupts off. -/
theorem Straight.settles (h : Straight img IntrOff n s t) (ht : Settles img P t) :
    Settles img P s := by
  induction h with
  | nil s => exact ht
  | cons hat hi hplain hoff hexec hrest ih =>
    refine .instr hat hi hoff.interruptible (savesTask_of_at hat hi (hplain.2 _)) ?_
    intro σ t hstep
    rw [hexec σ] at hstep
    exact Option.some.inj hstep ▸ ih ht

/-- More fuel does not change how a handler ends. -/
theorem handle_mono (h : s.handle img σ k = some t) (hk : k ≤ n) :
    s.handle img σ n = some t := by
  induction k generalizing s n with
  | zero => cases h
  | succ k ih =>
    obtain ⟨n, rfl⟩ := Nat.exists_eq_add_of_lt (Nat.lt_of_lt_of_le (Nat.succ_pos k) hk)
    simp only [Nat.zero_add, handle, Option.bind_eq_bind, Option.bind_eq_some_iff] at h ⊢
    obtain ⟨pc, hpc, u, hexec, hrest⟩ := h
    refine ⟨pc, hpc, u, hexec, ?_⟩
    split at hrest
    · next hiret => rwa [if_pos hiret]
    · next hiret =>
      rw [if_neg hiret]
      exact ih hrest (by omega)

/-- The end of a handler: plain instructions with interrupts off, then an `iret` that
is not disturbed either. -/
theorem settles_iret {pc : Pc} (hs : Straight img IntrOff n s t) (hat : t.At img pc)
    (hi : pc.instr? = some .iret) (hwait : t.cpu.interruptible = false) (σ : Scratch)
    (hend : ∀ u, s.handle img σ (n + 1) = some u → P u) : Settles img P s := by
  refine hs.settles (.instr hat hi hwait (savesTask_of_at hat hi (by simp)) fun σ' u hu => .done ?_)
  apply hend u
  rw [Nat.add_comm, hs.handle, handle_iret pc hat hi]
  simp only [execInstr, Option.bind_eq_bind] at hu
  obtain ⟨cpu, hcpu, hu⟩ := Option.bind_eq_some_iff.mp hu
  rw [hcpu]
  exact hu

/-- A whole handler from its entry: plain instructions up to its one call, and after it
either a state with `P`, or two more of them and the `iret`. -/
theorem settles_handler {pc : Pc} {f : CFun} (hs : Straight img IntrOff n s t)
    (hat : t.At img pc) (hi : pc.instr? = some (.call f)) (hoff : t.IntrOff)
    (hsave : SavesTask img t) (hn : n + 4 ≤ handlerFuel)
    (hcall : ∀ σ u, t.callC img σ f (img.addr pc.next) = some u → P u ∨
      ∃ v pc', Straight img IntrOff 2 u v ∧ v.At img pc' ∧ pc'.instr? = some .iret ∧
        v.cpu.interruptible = false)
    (hend : ∀ σ u, s.handle img σ handlerFuel = some u → P u) : Settles img P s := by
  refine hs.settles (.instr hat hi hoff.interruptible hsave fun σ u hu => ?_)
  rcases hcall σ u hu with hP | ⟨v, pc', hback, hat', hi', hwait⟩
  · exact .done hP
  · refine settles_iret hback hat' hi' hwait σ fun w hw => hend σ w ?_
    refine handle_mono (k := 3 + 1 + n) ?_ (by omega)
    have hret : t.callC img σ f (img.addr pc.next) = some u := hu
    rw [hs.handle, handle_call pc f hat hi, hret]
    exact hw

/-! ## The way back from a call -/

/-- `popa` and `sti`: the `iret` that follows is in the shadow of the `sti`. -/
theorem straight_isrReturn {b : Block} {f : CFun} (htext : text b = isrText f)
    (h : s.At img ⟨b, 7⟩) (hoff : s.IntrOff) :
    ∃ t, Straight img IntrOff 2 s t ∧ t.At img ⟨b, 9⟩ ∧ t.cpu.interruptible = false := by
  have hflag : (s.afterOps img [.popa] ⟨b, 8⟩).cpu.intrFlag = false :=
    Cpu.intrFlag_eq_false (hoff.afterOps (by decide) : (s.afterOps img [.popa] ⟨b, 8⟩).IntrOff)
  have hshadow : ((s.afterOps img [.popa] ⟨b, 8⟩).afterOps img [.sti] ⟨b, 9⟩).cpu.shadow
      = !(s.afterOps img [.popa] ⟨b, 8⟩).cpu.intrFlag := rfl
  rw [hflag, afterOps_cons] at hshadow
  refine ⟨s.afterOps img [.popa, .sti] ⟨b, 9⟩,
    straight_off [.popa, .sti] h (by rw [htext]; rfl) hoff (by decide), at_afterOps h, ?_⟩
  rw [Cpu.interruptible, hshadow]
  simp

theorem dataUsable_of_callC {f : CFun} {ret : Word} (h : s.callC img σ f ret = some t) :
    s.dataUsable = true := by
  by_contra hnot
  rw [callC_not_usable hnot] at h
  cases h

theorem clockUsable_of_callC (hm : Mode img s cur)
    (h : (s.clockCall img).callC img σ .clockInterruptHandler ret = some t) :
    s.clockUsable = true := by
  by_contra hnot
  rw [callC_clock_not_usable (s := s.clockCall img) img σ hm.currentTaskIdx hnot] at h
  cases h

/-- A C function that returned has left interrupts off. -/
theorem intrOff_called {pc : Pc} (hoff : s.IntrOff) : (s.called img σ pc).IntrOff :=
  (Eflags.blend_and _ _ (by decide)).trans hoff

/-! ## Handlers -/

/-- The default path runs undisturbed. -/
theorem settles_stub {v : Fin 256} {err : Option Word} (hv : v.val < 20 ∨ 32 ≤ v.val)
    (hend : ∀ σ u, (s.entered (img.addr ⟨.stub v, 0⟩) err).handle img σ handlerFuel
      = some u → P u) :
    Settles img P (s.entered (img.addr ⟨.stub v, 0⟩) err) := by
  obtain ⟨n, hn, hs⟩ := straight_stub img (s := s.entered (img.addr ⟨.stub v, 0⟩) err)
    ⟨rfl, cpl_c0Sel⟩ intrOff_entered hv
  have hat : ((s.entered (img.addr ⟨.stub v, 0⟩) err).reported img v).At img ⟨.idtText, 10⟩ :=
    ⟨rfl, cpl_c0Sel⟩
  have hoff : ((s.entered (img.addr ⟨.stub v, 0⟩) err).reported img v).IntrOff :=
    Eflags.and_not_and _ (by decide)
  have hcall : Pc.instr? ⟨.idtText, 10⟩ = some (.call .intrHdlr) := rfl
  refine settles_handler hs hat hcall hoff (savesTask_of_at hat hcall (by simp))
    (by simp only [handlerFuel]; omega) (fun σ u hu => .inr ?_) hend
  have hdata := dataUsable_of_callC hu
  rw [callC_intrHdlr img σ ⟨.idtText, 10⟩ rfl hdata] at hu
  split at hu
  · next out hout =>
    obtain rfl := Option.some.inj hu
    have hoff' : IntrOff { ((s.entered (img.addr ⟨.stub v, 0⟩) err).reported img v).called img σ
        ⟨.idtText, 10⟩ with console := s.console ++ out } := intrOff_called hoff
    exact ⟨_, ⟨.idtText, 13⟩, straight_off [.popa, .addEsp 8] (b := .idtText) (n := 11)
      ⟨rfl, cpl_c0Sel⟩ rfl hoff' (by decide), at_afterOps ⟨rfl, cpl_c0Sel⟩, rfl,
      (hoff'.afterOps (by decide)).interruptible⟩
  · cases hu

/-- So does a system call. -/
theorem settles_syscall
    (hend : ∀ σ u, (s.entered (img.addr ⟨.syscallIsr, 0⟩) none).handle img σ handlerFuel
      = some u → P u) :
    Settles img P (s.entered (img.addr ⟨.syscallIsr, 0⟩) none) := by
  have hat : (s.syscallCall img).At img ⟨.syscallIsr, 6⟩ := ⟨rfl, cpl_c0Sel⟩
  have hoff : (s.syscallCall img).IntrOff := Eflags.and_not_and _ (by decide)
  have hcall : Pc.instr? ⟨.syscallIsr, 6⟩ = some (.call .syscallHandler) := rfl
  refine settles_handler straight_syscallCall hat hcall hoff
    (savesTask_of_at hat hcall (by simp)) (by decide) (fun σ u hu => .inr ?_) hend
  have hdata := dataUsable_of_callC hu
  rw [callC_syscall img σ ⟨.syscallIsr, 6⟩ rfl hdata] at hu
  obtain ⟨value, -, rfl⟩ := Option.map_eq_some_iff.mp hu
  obtain ⟨t, hback, hat', hwait⟩ := straight_isrReturn (b := .syscallIsr) (f := .syscallHandler)
    (s := { (s.syscallCall img).called img σ ⟨.syscallIsr, 6⟩ with
      console := (s.syscallCall img).console ++ [syscallLine value]
      ports := (s.syscallCall img).ports ++ [⟨.syscallHandler, 0x80, 0x80⟩] })
    rfl ⟨rfl, cpl_c0Sel⟩ (intrOff_called hoff)
  exact ⟨t, ⟨.syscallIsr, 9⟩, hback, hat', rfl, hwait⟩

/-- In a state of a run the clock saves a task, or nothing. -/
theorem savesTask_clockCall (hm : Mode img s cur) : SavesTask img (s.clockCall img) := by
  intro hsave
  have hidx : s.currentTaskIdx ≠ -1 := hsave.running
  cases cur with
  | none => exact absurd (IdleMode.currentTaskIdx hm) hidx
  | some i =>
    have huser : UserMode s i := hm
    have hcpl : s.cpu.cpl ≠ 0 := by rw [huser.cpl]; decide
    obtain ⟨hmem, hesp⟩ := clockCall_eq img s
    have heax : (s.clockCall img).cpu.eax = (s.clockCall img).cpu.esp := rfl
    rw [heax, hmem, hesp, load_isrPushed hcpl, ctxRegs_isrCtx]
    exact huser.regs.cs

/-- The clock handler runs undisturbed until it starts a task for the first time. -/
theorem settles_clock (hk : Kernel img s) (hm : Mode img s cur)
    (hlaunch : ∀ σ, P (enterLaunch img σ ((s.clockCall img).switched cur (s.clockCall img).cpu.esp)
      (s.tasks (nextOf cur)).stack (s.tasks (nextOf cur)).function))
    (hend : ∀ σ u, (s.entered (img.addr ⟨.clockInterruptIsr, 0⟩) none).handle img σ handlerFuel
      = some u → P u) :
    Settles img P (s.entered (img.addr ⟨.clockInterruptIsr, 0⟩) none) := by
  have hat : (s.clockCall img).At img ⟨.clockInterruptIsr, 6⟩ := ⟨rfl, cpl_c0Sel⟩
  have hoff : (s.clockCall img).IntrOff := Eflags.and_not_and _ (by decide)
  refine settles_handler straight_clockCall hat rfl hoff (savesTask_clockCall hm) (by decide)
    (fun σ u hu => ?_) hend
  have husable := clockUsable_of_callC hm hu
  have hmap := stackMapped_switched σ hk hm
  rw [← (clockCall_eq img s).2] at hmap
  have hcall := callC_clock img σ (s := s.clockCall img) ⟨.clockInterruptIsr, 6⟩ cur rfl husable
    hm.currentTaskIdx (by exact hk.gdt ▸ dataOk_d3Sel img.tss 0) hmap
  obtain rfl := Option.some.inj (hcall.symm.trans hu)
  by_cases hsaved : (s.tasks (nextOf cur)).contextSaved = 1
  · right
    obtain ⟨t, hback, hat', hwait⟩ := straight_isrReturn (b := .clockInterruptIsr)
      (f := .clockInterruptHandler)
      (s := ((s.clockCall img).resumed cur (s.clockCall img).cpu.esp).called img σ
        ⟨.clockInterruptIsr, 6⟩)
      rfl ⟨rfl, cpl_c0Sel⟩ (intrOff_called hoff)
    refine ⟨t, ⟨.clockInterruptIsr, 9⟩, ?_, hat', rfl, hwait⟩
    exact (if_pos hsaved : (if (s.tasks (nextOf cur)).contextSaved = 1 then _ else _) = _) ▸ hback
  · left
    exact (if_neg hsaved : (if (s.tasks (nextOf cur)).contextSaved = 1 then _ else _) = _) ▸
      hlaunch σ

end Settles

end Machine

end SecOS
