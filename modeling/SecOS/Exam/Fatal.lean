-- SUMMARY: A fault of a task is the end of the system: it is reported as it happened, and nothing runs after the report.
import SecOS.Exam.Atomicity
import SecOS.Exam.DefaultPath
import SecOS.Kernel.Console

/-!
# Faults

Whatever exception a task raises, `intr_hdlr` is told what happened and where, and goes
into `panic` with the interrupts off. From the fault on the processor executes the few
instructions that lead there, and nothing else: no task gets the processor again.
-/

namespace SecOS

open X86

namespace Machine

variable {img : Image} {σ : Scratch} {s s₀ s₁ t u w : Machine} {cur : Option (Fin 2)} {i : Fin 2}
  {e : FineEvent} {v : Fin 256} {err : Option Word} {n : Nat}

/-! ## Exceptions of a task -/

/-- Event `e` is something a task must not do: the exception with vector `v` and error code
`err` is raised in `s₁`. The non-maskable interrupt is none of these. -/
inductive Raises (s : Machine) : FineEvent → Machine → Fin 256 → Option Word → Prop where
  | fault {v : Fin 256} (hv : v.val < 20) (hnmi : v.val ≠ nmiExcp) (err cr2 : Word) :
      Raises s (.fault v err cr2) (s.withCr2 cr2) v (if hasErrorCode v then some err else none)
  | int {n : Fin 256} (hclock : n.val ≠ clockVector) (hsyscall : n.val ≠ syscallVector) :
      Raises s (.int n) s 13 (some (BitVec.ofNat 32 (8 * n + 2)))
  | portOut {port : BitVec 16} {bs : List Byte} (hlen : bs.length ∈ [1, 2, 4])
      (hio : ¬ s.ioPermitted port.toNat bs.length = true) :
      Raises s (.portOut port bs) s 13 (some 0)
  | portIn {port : BitVec 16} {width : Nat} (value : Word) (hwidth : width ∈ [1, 2, 4])
      (hio : ¬ s.ioPermitted port.toNat width = true) :
      Raises s (.portIn port width value) s 13 (some 0)

theorem Raises.vector (h : Raises s e s₁ v err) :
    v.val < 20 ∧ v.val ≠ nmiExcp ∧ err.isSome = hasErrorCode v := by
  cases h with
  | fault hv hnmi err cr2 => exact ⟨hv, hnmi, isSome_errorCode v err⟩
  | int | portOut | portIn => exact ⟨by decide, by decide, rfl⟩

/-- The processor enters the stub of the vector. -/
theorem Raises.entered (h : Raises s e s₁ v err) (hinv : Inv img s (some i)) :
    fineStep img s e = some (s₁.entered (img.addr ⟨.stub v, 0⟩) err) ∧
      s₁.dataUsable = s.dataUsable := by
  have hm : UserMode s i := hinv.mode
  have hcpl := hm.cpl
  have hgp (err : Option Word) : s.interrupt 13 err
      = some (s.entered (img.addr ⟨.stub 13, 0⟩) err) := interrupt_eq hinv.kernel hinv.mode 13 err
  cases h with
  | fault hv hnmi err cr2 =>
    have hint := interrupt_eq (hinv.kernel.withCr2 cr2) (hinv.mode.withCr2 cr2) v
      (if hasErrorCode v then some err else none)
    rw [gateBlock_stub ⟨by simp only [clockVector]; omega, by simp only [syscallVector]; omega⟩]
      at hint
    refine ⟨(if_neg ?_).trans hint, rfl⟩
    rintro (hne | hge)
    · exact hne hcpl
    · omega
  | @int n hclock hsyscall =>
    obtain ⟨g, hg, hgate⟩ := gate_examIdt img n
    have hidt : s.idt[n.val]? = some g := by rw [hinv.kernel.idt, hg]
    have hlevel : gateLevel n = 0 := if_neg (by tauto)
    have hult : (0 : BitVec 2).ult 3 = true := rfl
    refine ⟨?_, rfl⟩
    simp only [fineStep, raiseInt, hcpl, hidt, hgate.dpl, hlevel, hult, ne_eq, not_true_eq_false,
      if_false, if_true, Option.bind_eq_bind, Option.bind_some]
    exact hgp _
  | portOut hlen hio =>
    refine ⟨?_, rfl⟩
    simp only [fineStep, raisePortOut, hcpl, hlen, hio, ne_eq, not_true_eq_false, false_or,
      if_false]
    exact hgp _
  | portIn value hwidth hio =>
    refine ⟨?_, rfl⟩
    simp only [fineStep, raisePortIn, hcpl, hwidth, hio, ne_eq, not_true_eq_false, false_or,
      if_false]
    exact hgp _

/-! ## The way to the report -/

/-- With interrupts off the kernel can only go on. -/
theorem exec_of_intrOff (hcpl : s.cpu.cpl = 0) (hoff : s.IntrOff) (h : fineStep img s e = some u) :
    ∃ σ, e = .exec σ := by
  rcases fineStep_of_cpl hcpl h with ⟨n, rfl⟩ | hexec
  · simp only [fineStep, irq, hoff.interruptible, Bool.not_false, if_true] at h
    cases h
  · exact hexec

/-- Along a stretch of code that leads to where nothing is possible, nothing else is. -/
theorem Straight.confined (h : Straight img IntrOff n s t) (hstuck : ∀ f, fineStep img t f = none)
    {fs : List FineEvent} (hrun : Lts.run (fineStep img) s fs = some w) :
    fs.length ≤ n ∧ ∀ f ∈ fs, f.isExec = true := by
  induction h generalizing fs with
  | nil s =>
    cases fs with
    | nil => simp
    | cons f fs =>
      obtain ⟨u, hstep, -⟩ := Lts.run_cons.mp hrun
      rw [hstuck f] at hstep
      cases hstep
  | cons hat hi hplain hoff hexec hrest ih =>
    cases fs with
    | nil => simp
    | cons f fs =>
      obtain ⟨u, hstep, hrun'⟩ := Lts.run_cons.mp hrun
      obtain ⟨σ, rfl⟩ := exec_of_intrOff hat.cpl hoff hstep
      have hu := (exec_at hat hi).symm.trans hstep
      rw [hexec σ] at hu
      obtain rfl := Option.some.inj hu
      obtain ⟨hlen, hall⟩ := ih hstuck hrun'
      refine ⟨Nat.succ_le_succ hlen, fun f hf => ?_⟩
      rcases List.mem_cons.mp hf with rfl | hf
      · rfl
      · exact hall f hf

/-- In every run with requests at any instruction boundary: when a task raises an exception
and the kernel's data can be accessed, `intr_hdlr` is called after a few instructions with
the vector, the error code and the registers of the task, names the exception in a report
that the line carries as it is, and goes into the stack trace; and from the fault on the
processor executes these instructions and no other. -/
theorem fatal_of_run {es : List FineEvent} (hboot : Booted img s₀)
    (hes : ∀ e ∈ es, FineSparesPics e) (hquiet : LaunchesUndisturbed img s₀ es)
    (hrun : Lts.run (fineStep img) s₀ es = some s) (hcpl : s.cpu.cpl = 3)
    (hdata : s.dataUsable = true) (hraise : Raises s e s₁ v err) :
    ∃ u t n, fineStep img s e = some u ∧ n ≤ 11 ∧
      (∀ σ, Lts.run (fineStep img) u (List.replicate n (.exec σ)) = some t) ∧
      t.At img ⟨.idtText, 10⟩ ∧ Pc.instr? ⟨.idtText, 10⟩ = some (.call .intrHdlr) ∧
      ReportsInterrupt s₁ v err (IntCtx.load t.mem t.cpu.eax) ∧
      (∃ out name, exceptionNames[v.val]? = some name ∧
        intrHdlr t.cpu (IntCtx.load t.mem t.cpu.eax) = .fatal out ∧
        ⟨"\nException: %s\n", [.text (some name)]⟩ ∈ out ∧ ∀ l ∈ out, l.Printable) ∧
      ∀ fs w, Lts.run (fineStep img) u fs = some w →
        fs.length ≤ n ∧ ∀ f ∈ fs, f.isExec = true := by
  obtain ⟨i, hinv⟩ : ∃ i, Inv img s (some i) := by
    rcases hboot.serial hes hquiet hrun with ⟨cur, hdone⟩ | ⟨pre, f, fs, -, hinside⟩
    · obtain ⟨i, rfl, -⟩ := hdone.inv.mode.task_of_cpl hcpl
      exact ⟨i, hdone.inv⟩
    · obtain ⟨x, y, cur, pc, -, -, -, -, hhandling⟩ := hinside.handler
      rw [hhandling.place.cpl] at hcpl
      cases hcpl
  obtain ⟨hv, hnmi, herr⟩ := hraise.vector
  obtain ⟨hstep, hdata₁⟩ := hraise.entered hinv
  obtain ⟨n, hn, hstub⟩ := straight_stub img (s := s₁.entered (img.addr ⟨.stub v, 0⟩) err)
    ⟨rfl, cpl_c0Sel⟩ intrOff_entered (.inl hv)
  have hload := load_reported img s₁ (img.addr ⟨.stub v, 0⟩) herr
  have hat : ((s₁.entered (img.addr ⟨.stub v, 0⟩) err).reported img v).At img ⟨.idtText, 10⟩ :=
    ⟨rfl, cpl_c0Sel⟩
  have hoff : ((s₁.entered (img.addr ⟨.stub v, 0⟩) err).reported img v).IntrOff :=
    Eflags.and_not_and _ (by decide)
  have hblow : blow (s₁.contextOf v err).nr = v := blow_ofNat v.isLt
  let t := (s₁.entered (img.addr ⟨.stub v, 0⟩) err).reported img v
  obtain ⟨out, name, hname, hout, hmem, hall⟩ := fatal_intrHdlr t.cpu hv hnmi hblow
  have hstuck : ∀ f, fineStep img t f = none := by
    intro f
    cases hf : fineStep img t f with
    | none => rfl
    | some x =>
      obtain ⟨σ, rfl⟩ := exec_of_intrOff hat.cpl hoff hf
      have hcall := callC_intrHdlr img σ ⟨.idtText, 10⟩ (s := t) rfl (hdata₁.trans hdata)
      have hctx : IntCtx.load t.mem t.cpu.esp = s₁.contextOf v err := hload
      have hexec : t.exec img σ = t.callC img σ .intrHdlr (img.addr (Pc.next ⟨.idtText, 10⟩)) :=
        exec_at hat rfl
      have hx := (hcall.symm.trans hexec.symm).trans hf
      rw [hctx, hout] at hx
      cases hx
  refine ⟨_, t, n, hstep, hn, fun σ => hstub.run, hat, rfl, ?_, ⟨out, name, hname, ?_, hmem, hall⟩,
    ?_⟩
  · exact hload.symm ▸ reportsInterrupt_contextOf
  · exact hload.symm ▸ hout
  · intro fs w hfs
    exact hstub.confined hstuck hfs

/-- Task 0 divides by zero. -/
theorem fatal_sampleTask :
    ∃ t n out, Lts.run (fineStep sampleImage) sampleTask
        (.fault 0 0 0 :: List.replicate n (.exec sampleScratch)) = some t ∧
      intrHdlr t.cpu (IntCtx.load t.mem t.cpu.eax) = .fatal out ∧
      ⟨"\nException: %s\n", [.text (some "Divide by zero")]⟩ ∈ out := by
  obtain ⟨es, -, hes, hquiet, hrun⟩ := booted_sample.fineRun (by simp [SparesPics]) run_sampleTask
  obtain ⟨u, t, n, hstep, -, hstub, -, -, -, ⟨out, name, hname, hout, hmem, -⟩, -⟩ :=
    fatal_of_run booted_sample hes hquiet hrun rfl rfl
      (Raises.fault (v := 0) (by decide) (by decide) 0 0)
  obtain rfl : "Divide by zero" = name := Option.some.inj hname
  exact ⟨t, n, out, Lts.run_cons.mpr ⟨u, hstep, hstub sampleScratch⟩, hout, hmem⟩

end Machine

end SecOS
