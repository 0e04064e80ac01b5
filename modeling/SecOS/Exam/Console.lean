-- SUMMARY: All that a run prints, and that the serial line carries it unabridged.
import SecOS.Exam.RoundRobin
import SecOS.Kernel.Console

/-!
# The console of a run

Each handler prints what its event asks for. Every message of a run is one the formatter
knows, and fits into the buffer, whatever the registers and the memory of the tasks hold;
so the bytes on the serial line are the messages of the run one after another, as long as
the tasks leave its ports alone.
-/

namespace SecOS

open X86

def PortWrite.event (w : PortWrite) : IoEvent := .outb w.port w.value

namespace Machine

variable {img : Image} {σ : Scratch} {s s' s₀ : Machine} {cur : Option (Fin 2)} {e : Event}
  {es : List Event}

/-- What the handler of an event prints. -/
def linesOf (img : Image) (s : Machine) : Event → List Line
  | .irq n _ =>
    if n = 0 then [clockLine (nextOf (taskAt s.currentTaskIdx))]
    else (intrHdlr s.cpu (s.contextOf (irqVector n) none)).lines
  | .int n σ =>
    if n.val = clockVector then [clockLine (nextOf (taskAt s.currentTaskIdx))]
    else (s.afterInt.syscallRead img σ).toList.map syscallLine
  | .fault v err cr2 _ =>
    (intrHdlr (s.withCr2 cr2).cpu
      (s.contextOf v (if hasErrorCode v then some err else none))).lines
  | _ => []

/-- What a run prints. -/
def linesOfRun (img : Image) : Machine → List Event → List Line
  | _, [] => []
  | s, e :: es =>
    match step img s e with
    | some s' => linesOf img s e ++ linesOfRun img s' es
    | none => []

theorem taskAt_idxWord_cur (cur : Option (Fin 2)) : taskAt (idxWord cur) = cur := by
  match cur with
  | none => rfl
  | some i => exact taskAt_idxWord i

/-- The default path prints the report. -/
theorem console_of_serve (hk : Kernel img s) (hm : Mode img s cur) {v : Fin 256}
    {err : Option Word} (hv : v.val < 20 ∨ 32 ≤ v.val)
    (hstub : v.val ≠ clockVector ∧ v.val ≠ syscallVector) (herr : err.isSome = hasErrorCode v)
    (h : s.serve img σ v err = some s') :
    s'.console = s.console ++ (intrHdlr s.cpu (s.contextOf v err)).lines := by
  obtain ⟨out, hout, rfl⟩ := serve_stub hk hm hv hstub herr h
  rw [hout]
  rfl

theorem console_of_irq (h : Inv img s cur) {n : Nat} (hn : 0 < n ∧ n < 16 ∧ n ≠ 2)
    (hstep : step img s (.irq n σ) = some s') :
    s'.console = s.console ++ (intrHdlr s.cpu (s.contextOf (irqVector n) none)).lines := by
  rw [step_irq h] at hstep
  split at hstep
  · exact console_of_serve (v := ⟨irqVector n, irqVector_lt hn.2.1⟩)
      (h.kernel.withPics (servicing s.pics n)) (h.mode.withPics (servicing s.pics n))
      (.inr (Nat.le_add_right 32 n))
      (by simp only [irqVector, clockVector, syscallVector]; omega) (isSome_irqVector n) hstep
  · cases hstep

theorem console_of_fault (h : Inv img s cur) {v : Nat} {err cr2 : Word}
    (hstep : step img s (.fault v err cr2 σ) = some s') :
    v < 20 ∧ s'.console = s.console ++ (intrHdlr (s.withCr2 cr2).cpu
      (s.contextOf v (if hasErrorCode v then some err else none))).lines := by
  simp only [step, fault] at hstep
  split at hstep
  · cases hstep
  · next hnot =>
    have hv : v < 20 := Nat.lt_of_not_le fun hv => hnot (.inr hv)
    refine ⟨hv, ?_⟩
    exact console_of_serve (v := ⟨v, by omega⟩) (h.kernel.withCr2 cr2) (h.mode.withCr2 cr2)
      (.inl hv) (by simp only [clockVector, syscallVector]; omega) (isSome_errorCode v err) hstep

theorem console_of_step (h : Inv img s cur) (hstep : step img s e = some s') :
    s'.console = s.console ++ linesOf img s e := by
  have hcur : taskAt s.currentTaskIdx = cur := by
    rw [h.mode.currentTaskIdx, taskAt_idxWord_cur]
  have heff := effect_of_step h hstep
  cases heff with
  | user hcur' hcs hss hmem => exact (List.append_nil _).symm
  | portOut hcur' hok σ =>
    rw [outs_eq]
    exact (List.append_nil _).symm
  | portIn hcur' hok hreads σ => exact (List.append_nil _).symm
  | clockIrq hfree σ =>
    simp only [linesOf, if_true, hcur]
    rfl
  | clockInt hcur' σ =>
    have hvector : (32 : Fin 256).val = clockVector := rfl
    simp only [linesOf, if_pos hvector, hcur]
    rfl
  | syscall hcur' σ hread =>
    have hvector : (0x80 : Fin 256).val ≠ clockVector := by decide
    simp only [linesOf, if_neg hvector, hread, Option.toList_some, List.map_cons, List.map_nil]
    rfl
  | device hn hfree σ =>
    simp only [linesOf, if_neg (Nat.ne_of_gt hn.1)]
    exact console_of_irq h hn hstep
  | nmi hcur' σ => exact (console_of_fault h hstep).2

/-- The report of a context that names its vector is printable. -/
theorem printable_contextOf {c : Cpu} {v : Nat} {err : Option Word} (h : v < 20 ∨ 32 ≤ v)
    (hlt : v < 256) : ∀ l ∈ (intrHdlr c (s.contextOf v err)).lines, l.Printable := by
  have hblow : blow (s.contextOf v err).nr = v := blow_ofNat hlt
  exact printable_intrHdlr (by rw [hblow]; exact h)

theorem printable_clockLine (i : Fin 2) : (clockLine i).Printable := by
  match i with
  | 0 => exact Line.printable_words 0 30 rfl (by decide +kernel) (by decide)
  | 1 => exact Line.printable_words 0 30 rfl (by decide +kernel) (by decide)

theorem printable_syscallLine (w : Word) : (syscallLine w).Printable :=
  Line.printable_words 1 30 rfl (by decide +kernel) (by decide)

theorem printable_linesOf (h : Inv img s cur) (hstep : step img s e = some s') :
    ∀ l ∈ linesOf img s e, l.Printable := by
  have heff := effect_of_step h hstep
  intro l hl
  cases heff with
  | user | portOut | portIn => cases hl
  | clockIrq hfree σ =>
    simp only [linesOf, if_true, List.mem_singleton] at hl
    exact hl ▸ printable_clockLine _
  | clockInt hcur' σ =>
    have hvector : (32 : Fin 256).val = clockVector := rfl
    simp only [linesOf, if_pos hvector, List.mem_singleton] at hl
    exact hl ▸ printable_clockLine _
  | syscall hcur' σ hread =>
    have hvector : (0x80 : Fin 256).val ≠ clockVector := by decide
    simp only [linesOf, if_neg hvector, hread, Option.toList_some, List.map_cons, List.map_nil,
      List.mem_singleton] at hl
    exact hl ▸ printable_syscallLine _
  | device hn hfree σ =>
    simp only [linesOf, if_neg (Nat.ne_of_gt hn.1)] at hl
    exact printable_contextOf (.inr (Nat.le_add_right 32 _)) (irqVector_lt hn.2.1) l hl
  | @nmi i err cr2 out hcur' σ =>
    have hnmi : 2 < 20 ∨ 32 ≤ 2 := .inl (by decide)
    exact printable_contextOf (c := (s.withCr2 cr2).cpu) hnmi (by decide) l hl

/-! ## Over runs -/

theorem Inv.lines_of_run (h : Inv img s cur) (hes : ∀ e ∈ es, SparesPics e)
    (hrun : Lts.run (step img) s es = some s') :
    s'.console = s.console ++ linesOfRun img s es ∧ ∀ l ∈ linesOfRun img s es, l.Printable := by
  induction es generalizing s cur with
  | nil =>
    rw [← Lts.run_nil.mp hrun]
    exact ⟨(List.append_nil _).symm, by simp [linesOfRun]⟩
  | cons e es ih =>
    obtain ⟨u, hstep, hrest⟩ := Lts.run_cons.mp hrun
    have hu := (effect_of_step h hstep).inv h (hes e List.mem_cons_self)
    obtain ⟨hconsole, hall⟩ := ih hu (fun e' he' => hes e' (List.mem_cons_of_mem _ he')) hrest
    simp only [linesOfRun, hstep]
    refine ⟨?_, fun l hl => ?_⟩
    · rw [hconsole, console_of_step h hstep, List.append_assoc]
    · rcases List.mem_append.mp hl with hl | hl
      · exact printable_linesOf h hstep l hl
      · exact hall l hl

/-! ## On the serial line -/

/-- The reads of `in`. -/
def insReads (port : BitVec 16) : List Byte → List IoEvent
  | [] => []
  | b :: bs => .inb port b :: insReads (port + 1) bs

/-- The accesses to ports of an event that leads from `s` to `s'`, those of `debug` apart. -/
def accesses (s s' : Machine) : Event → List IoEvent
  | .portIn port width value _ => insReads port (lowBytes width value)
  | _ => (s'.ports.drop s.ports.length).map PortWrite.event

/-- All accesses to ports of a run, event after event. -/
inductive Traffic (img : Image) : Machine → List Event → List IoEvent → Prop
  | nil {s : Machine} : Traffic img s [] []
  | cons {s s' : Machine} {e : Event} {es : List Event} {trace rest : List IoEvent}
      (hstep : step img s e = some s') (hsent : Sent (linesOf img s e) (accesses s s' e) trace)
      (hrest : Traffic img s' es rest) : Traffic img s (e :: es) (trace ++ rest)

/-- A task does not use the ports of the serial line. -/
def SparesUart : Event → Prop
  | .portOut port bs _ => ∀ k < bs.length, uartPort (port + BitVec.ofNat 16 k) = false
  | .portIn port width _ _ => ∀ k < width, uartPort (port + BitVec.ofNat 16 k) = false
  | _ => True

/-- The messages and the log account for all that is written to ports: on the serial line
there are the texts in order, nothing lost, cut or added, and no byte before the device is
ready for it; and the log has every other write. -/
structure Transcript (ls : List Line) (ports ports' : List PortWrite) (trace : List IoEvent) :
    Prop where
  text : written (serialTx serialCom1) trace = ls.flatMap fun l => l.text.getD []
  polled : Polled serialCom1 trace
  log : ports'.map PortWrite.event
    = ports.map PortWrite.event ++ trace.filter fun a => !uartPort a.port && a.isWrite

theorem Transcript.append {ls ls' : List Line} {ports ports' ports'' : List PortWrite}
    {trace trace' : List IoEvent} (h : Transcript ls ports ports' trace)
    (h' : Transcript ls' ports' ports'' trace') :
    Transcript (ls ++ ls') ports ports'' (trace ++ trace') where
  text := by rw [written_append, h.text, h'.text, List.flatMap_append]
  polled := h.polled.append h'.polled
  log := by rw [h'.log, h.log, List.filter_append, List.append_assoc]

theorem spares_succ {port : BitVec 16} {n : Nat}
    (h : ∀ k < n + 1, uartPort (port + BitVec.ofNat 16 k) = false) :
    uartPort port = false ∧ ∀ k < n, uartPort (port + 1 + BitVec.ofNat 16 k) = false := by
  have hfirst := h 0 (Nat.succ_pos n)
  rw [BitVec.add_zero] at hfirst
  refine ⟨hfirst, fun k hk => ?_⟩
  have hnext : port + 1 + BitVec.ofNat 16 k = port + BitVec.ofNat 16 (k + 1) := by
    rw [BitVec.ofNat_add, BitVec.add_assoc, BitVec.add_comm 1]
    rfl
  rw [hnext]
  exact h (k + 1) (Nat.succ_lt_succ hk)

theorem insReads_spares {port : BitVec 16} {bs : List Byte}
    (h : ∀ k < bs.length, uartPort (port + BitVec.ofNat 16 k) = false) :
    (∀ a ∈ insReads port bs, uartPort a.port = false) ∧
      (insReads port bs).filter IoEvent.isWrite = [] := by
  induction bs generalizing port with
  | nil => exact ⟨by simp [insReads], rfl⟩
  | cons b bs ih =>
    obtain ⟨hfirst, hrest⟩ := spares_succ h
    obtain ⟨hports, hwrites⟩ := ih hrest
    exact ⟨List.forall_mem_cons.mpr ⟨hfirst, hports⟩, hwrites⟩

/-- The log grows by writes to other devices. -/
def LogsOthers (s s' : Machine) : Prop :=
  ∃ ws, s'.ports = s.ports ++ ws ∧ ∀ w ∈ ws, uartPort w.port = false

theorem logsOthers_outs {port : BitVec 16} {bs : List Byte}
    (h : ∀ k < bs.length, uartPort (port + BitVec.ofNat 16 k) = false) :
    LogsOthers s (s.outs port bs) := by
  induction bs generalizing s port with
  | nil => exact ⟨[], (List.append_nil _).symm, by simp⟩
  | cons b bs ih =>
    obtain ⟨hfirst, hrest⟩ := spares_succ h
    obtain ⟨ws, hws, hports⟩ := ih (s := s.outb .ring3 b port) hrest
    refine ⟨⟨.ring3, port, b⟩ :: ws, ?_, List.forall_mem_cons.mpr ⟨hfirst, hports⟩⟩
    rw [outs, hws, outb, List.append_assoc]
    rfl

theorem uartPort_ackWrites (v : Nat) : ∀ w ∈ ackWrites v, uartPort w.port = false := by
  unfold ackWrites
  split
  · decide
  · split <;> decide

theorem Effect.logsOthers (he : Effect img s cur e s') (hspare : SparesUart e) :
    LogsOthers s s' := by
  cases he with
  | user | portIn => exact ⟨[], (List.append_nil _).symm, by simp⟩
  | clockIrq | clockInt => exact ⟨[⟨.clockInterruptHandler, 32, 32⟩], rfl, by decide⟩
  | syscall => exact ⟨[⟨.syscallHandler, 0x80, 0x80⟩], rfl, by decide⟩
  | device | nmi => exact ⟨_, rfl, uartPort_ackWrites _⟩
  | portOut => exact logsOthers_outs hspare

/-- The accesses of an event are to other devices, and the log has the writes among them. -/
theorem accesses_spec (h : Inv img s cur) (hspare : SparesUart e)
    (hstep : step img s e = some s') :
    (∀ a ∈ accesses s s' e, uartPort a.port = false) ∧
      s'.ports.map PortWrite.event
        = s.ports.map PortWrite.event ++ (accesses s s' e).filter IoEvent.isWrite := by
  have heff := effect_of_step h hstep
  obtain ⟨ws, hws, hports⟩ := heff.logsOthers hspare
  have hlogged : (∀ a ∈ (s'.ports.drop s.ports.length).map PortWrite.event,
        uartPort a.port = false) ∧
      s'.ports.map PortWrite.event = s.ports.map PortWrite.event ++
        ((s'.ports.drop s.ports.length).map PortWrite.event).filter IoEvent.isWrite := by
    rw [hws, List.drop_left, List.map_append]
    refine ⟨List.forall_mem_map.mpr hports, congrArg _ (List.filter_eq_self.mpr ?_).symm⟩
    exact List.forall_mem_map.mpr fun _ _ => rfl
  cases e with
  | portIn port width value σ =>
    have hlen : (lowBytes width value).length = width := by
      rw [lowBytes, List.length_map, List.length_range]
    obtain ⟨hreads, hwrites⟩ := insReads_spares (hlen.symm ▸ hspare)
    refine ⟨hreads, ?_⟩
    rw [accesses, hwrites, List.append_nil]
    cases heff with
    | portIn => rfl
  | _ => exact hlogged

theorem transcript_of_step (h : Inv img s cur) (hspare : SparesUart e)
    (hstep : step img s e = some s') {trace : List IoEvent}
    (hsent : Sent (linesOf img s e) (accesses s s' e) trace) :
    Transcript (linesOf img s e) s.ports s'.ports trace := by
  obtain ⟨hothers, hlog⟩ := accesses_spec h hspare hstep
  obtain ⟨htext, hpolled⟩ := hsent.written (printable_linesOf h hstep) hothers
  refine ⟨htext, hpolled, ?_⟩
  rw [hlog, ← hsent.filter hothers, List.filter_filter]
  simp only [Bool.and_comm]

/-- Whatever is done on the ports in a run is accounted for. -/
theorem Inv.transcript (h : Inv img s cur) (hes : ∀ e ∈ es, SparesPics e ∧ SparesUart e)
    (hrun : Lts.run (step img) s es = some s') {trace : List IoEvent}
    (htrace : Traffic img s es trace) :
    Transcript (linesOfRun img s es) s.ports s'.ports trace := by
  induction es generalizing s cur trace with
  | nil =>
    cases htrace
    rw [← Lts.run_nil.mp hrun]
    exact ⟨rfl, Polled.nil, (List.append_nil _).symm⟩
  | cons e es ih =>
    obtain ⟨u, hstep, hrest⟩ := Lts.run_cons.mp hrun
    obtain ⟨hspare, huart⟩ := hes e List.mem_cons_self
    have hu := (effect_of_step h hstep).inv h hspare
    cases htrace with
    | @cons _ u' _ _ first rest hstep' hsent htail =>
      obtain rfl : u = u' := Option.some.inj (hstep.symm.trans hstep')
      have hlater := ih hu (fun e' he' => hes e' (List.mem_cons_of_mem _ he')) hrest htail
      simp only [linesOfRun, hstep]
      exact (transcript_of_step h huart hstep hsent).append hlater

/-- A run prints what its events ask for. Every one of these messages has a text: `printf`
of it returns whatever memory holds beside its arguments, as soon as the device has been
ready often enough. And what goes out on the serial line is these texts. -/
theorem console_of_run (hboot : Booted img s₀) (hes : ∀ e ∈ es, SparesPics e ∧ SparesUart e)
    (hrun : Lts.run (step img) s₀ es = some s) :
    s.console = s₀.console ++ linesOfRun img s₀ es ∧
    (∀ l ∈ linesOfRun img s₀ es, ∃ t, l.text = some t ∧
      ∀ m p vprintBuffer lsr, ArgsAt m p l.args →
        ∃ v, printf m vprintBuffer l.chars p = .ok v ∧
          ∀ k, v.count ≤ ((List.range k).countP fun i => uartCanSend (lsr i)) →
            v.count ≤ (v.uart lsr k).sz) ∧
    ∀ trace, Traffic img s₀ es trace →
      Transcript (linesOfRun img s₀ es) s₀.ports s.ports trace := by
  obtain ⟨hconsole, hall⟩ := hboot.inv.lines_of_run (fun e he => (hes e he).1) hrun
  refine ⟨hconsole, fun l hl => ?_, fun trace htrace => hboot.inv.transcript hes hrun htrace⟩
  obtain ⟨t, ht, hlen⟩ := hall l hl
  refine ⟨t, ht, fun m p vprintBuffer lsr hargs => ?_⟩
  obtain ⟨v, hv, -, -, hdone⟩ := Line.sends ht hlen hargs vprintBuffer lsr
  exact ⟨v, hv, hdone⟩

/-- The first tick on the ports, with a device that is always ready. -/
theorem exists_traffic_sample :
    ∃ trace, Traffic sampleImage sample [.irq 0 sampleScratch] trace := by
  obtain ⟨t, ht, hlen⟩ := printable_clockLine 0
  obtain ⟨v, hv, -, -, hdone⟩ :=
    Line.sends (m := sample.mem) (p := 0) ht hlen trivial (fun _ => 0) (fun _ => serialLsrThre)
  have hready : (List.range v.count).countP (fun _ => uartCanSend serialLsrThre) = v.count := by
    rw [List.countP_eq_length.mpr fun _ _ => by decide, List.length_range]
  have hsent : Sent [clockLine 0] [.outb 32 32] _ :=
    .cons trivial hv (hdone v.count hready.ge) (.other _ .nil)
  exact ⟨_, .cons step_sampleTask hsent .nil⟩

theorem console_sampleTask :
    ∃ trace, Traffic sampleImage sample [.irq 0 sampleScratch] trace ∧
      Transcript (linesOfRun sampleImage sample [.irq 0 sampleScratch]) sample.ports
        sampleTask.ports trace := by
  obtain ⟨trace, htrace⟩ := exists_traffic_sample
  have hspare : ∀ e ∈ [Event.irq 0 sampleScratch], SparesPics e ∧ SparesUart e := by
    simp [SparesPics, SparesUart]
  exact ⟨trace, htrace, (console_of_run booted_sample hspare run_sampleTask).2.2 trace htrace⟩

end Machine

end SecOS
