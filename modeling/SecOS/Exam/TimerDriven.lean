-- SUMMARY: What drives the task switches: the timer, and `int $0x20` at level 3, whose gate was opened by mistake.
import SecOS.Exam.Preemption

/-!
# What drives the task switches

`config_interrupt` lets level 3 call the gate of the clock, and the handler cannot tell
such a call from the timer. Short of that instruction, of programming the interrupt
controllers anew, and of polling them, only the timer switches tasks; and it does so as
long as the handler can save what it has interrupted.
-/

namespace SecOS

open X86

namespace Machine

variable {img : Image} {σ : Scratch} {s s' s₀ : Machine} {cur : Option (Fin 2)} {i : Fin 2}

/-! ## Switches -/

/-- The ends of interrupt that the clock handler has sent. -/
def clockEois (ports : List PortWrite) : Nat := ports.count ⟨.clockInterruptHandler, pic1, picEoi⟩

/-- The next task runs, on its kernel stack and in its address space, and the clock
handler has sent one end of interrupt. -/
structure Switched (s s' : Machine) : Prop where
  currentTaskIdx : s'.currentTaskIdx = (s.currentTaskIdx + 1) % 2
  next : ∃ i, taskAt s'.currentTaskIdx = some i ∧ s'.tss.s0.esp = (s'.tasks i).interruptStack ∧
    s'.cpu.cr3 = (s'.tasks i).pgd
  eoi : clockEois s'.ports = clockEois s.ports + 1

/-- Neither the task nor its kernel stack nor its address space has changed, and the
clock handler has sent nothing. -/
structure Unswitched (s s' : Machine) : Prop where
  currentTaskIdx : s'.currentTaskIdx = s.currentTaskIdx
  esp0 : s'.tss.s0.esp = s.tss.s0.esp
  cr3 : s'.cpu.cr3 = s.cpu.cr3
  eoi : clockEois s'.ports = clockEois s.ports

/-- The first controller's line 0 was acknowledged. -/
def timerEvent : Event → Bool
  | .irq n _ => n == 0
  | _ => false

/-- A switch when the timer asked for it, and none otherwise. -/
def TimerDriven (s : Machine) (e : Event) (s' : Machine) : Prop :=
  if timerEvent e = true then Switched s s' else Unswitched s s'

/-- An instruction of level 3 that does not call the clock's gate, and does not initialise
an interrupt controller anew. -/
def SparesTimer (e : Event) : Prop := SparesPics e ∧ ∀ σ, e ≠ .int 32 σ

theorem Switched.clockDone (img : Image) (σ : Scratch) (s : Machine)
    (hcur : s.currentTaskIdx = idxWord cur) :
    Switched s (s.clockDone img σ cur) where
  currentTaskIdx := by rw [hcur, idxWord_add_one]; rfl
  next := by
    have htask : (s.clockDone img σ cur).tasks (nextOf cur) = s.tasks (nextOf cur) :=
      savedTasks_nextOf _ _ _
    refine ⟨nextOf cur, taskAt_idxWord _, ?_, ?_⟩ <;> rw [htask] <;> rfl
  eoi := by
    simp only [clockEois, Machine.clockDone, List.count_append]
    rfl

theorem clockEois_ackWrites (v : Nat) : clockEois (ackWrites v) = 0 := by
  rw [clockEois, ackWrites]
  split
  · rfl
  · split <;> rfl

theorem Unswitched.returned (img : Image) (σ : Scratch) (s : Machine) (v : Nat)
    (err : Option Word) (out : List Line) :
    Unswitched s (s.returned img σ v err out) where
  currentTaskIdx := rfl
  esp0 := rfl
  cr3 := restored_cr3 _ _
  eoi := by
    have hports : (s.returned img σ v err out).ports = s.ports ++ ackWrites v := rfl
    have hack := clockEois_ackWrites v
    rw [hports]
    rw [clockEois] at hack ⊢
    rw [List.count_append, hack, clockEois, Nat.add_zero]

/-- What level 3 writes to ports is not the clock handler's. -/
theorem clockEois_outs {port : BitVec 16} {bs : List Byte} :
    clockEois (s.outs port bs).ports = clockEois s.ports := by
  induction bs generalizing s port with
  | nil => rfl
  | cons b bs ih =>
    rw [outs, ih, outb, clockEois, clockEois, List.count_append]
    rfl

theorem Effect.timerDriven {e : Event} (he : Effect img s cur e s') (h : Inv img s cur)
    (hint : ∀ σ, e ≠ .int 32 σ) : TimerDriven s e s' := by
  cases he with
  | user hcur hcs hss hmem => exact ⟨rfl, rfl, rfl, rfl⟩
  | clockIrq hfree σ =>
    have hsw := Switched.clockDone img σ (s.withPics (servicing s.pics 0)) h.mode.currentTaskIdx
    exact ⟨hsw.currentTaskIdx, hsw.next, hsw.eoi⟩
  | clockInt hcur σ => exact absurd rfl (hint σ)
  | syscall hcur σ hread =>
    refine ⟨rfl, rfl, rfl, ?_⟩
    simp only [clockEois, syscallDone, List.count_append]
    rfl
  | @device n out hn hfree σ =>
    have hno : ¬ timerEvent (.irq n σ) = true := by
      simp only [timerEvent, beq_iff_eq]
      omega
    have hun := Unswitched.returned img σ (s.withPics (servicing s.pics n)) (irqVector n) none out
    rw [TimerDriven, if_neg hno]
    exact ⟨hun.currentTaskIdx, hun.esp0, hun.cr3, hun.eoi⟩
  | @nmi i err cr2 out hcur σ =>
    have hun := Unswitched.returned img σ (s.withCr2 cr2) 2 none out
    exact ⟨hun.currentTaskIdx, hun.esp0, hun.cr3, hun.eoi⟩
  | portOut hcur hok σ =>
    refine ⟨?_, ?_, ?_, clockEois_outs⟩ <;> rw [outs_eq]
  | portIn hcur hok hreads σ => exact ⟨rfl, rfl, rfl, rfl⟩

/-! ## Over runs -/

theorem clockEois_of_run {es : List Event} (h : Inv img s₀ cur) (hes : ∀ e ∈ es, SparesTimer e)
    (hrun : Lts.run (step img) s₀ es = some s) :
    clockEois s.ports = clockEois s₀.ports + es.countP timerEvent := by
  induction es generalizing s₀ cur with
  | nil => rw [Lts.run_nil.mp hrun]; rfl
  | cons e es ih =>
    obtain ⟨u, hstep, hrest⟩ := Lts.run_cons.mp hrun
    have he := hes e (List.mem_cons_self ..)
    have heff := effect_of_step h hstep
    have htimer := heff.timerDriven h he.2
    rw [ih (heff.inv h he.1) (fun e' he' => hes e' (List.mem_cons_of_mem _ he')) hrest,
      List.countP_cons]
    rw [TimerDriven] at htimer
    split at htimer
    · next htick =>
      rw [htimer.eoi, if_pos htick]
      omega
    · next htick =>
      rw [htimer.eoi, if_neg htick]
      omega

/-- What the timer has done in a run from `s₀` to `s`, and what it will do next. -/
structure DrivenByTimer (img : Image) (s₀ : Machine) (es : List Event) (s : Machine) : Prop where
  eois : clockEois s.ports = clockEois s₀.ports + es.countP timerEvent
  /-- A read of a port acknowledges nothing. -/
  reads : ∀ port bytes, s.pics.reads port bytes = some s.pics
  /-- The timer's request that is acknowledged switches, unless DS or ES is unusable. -/
  tick : ∀ σ, Requested s 0 →
    ((∃ s', step img s (.irq 0 σ) = some s' ∧ Switched s s') ↔ s.clockUsable = true)
  step : ∀ e s', SparesTimer e → step img s e = some s' → TimerDriven s e s'

/-- As long as level 3 spares the clock's gate and the controllers, each acknowledged
timer interrupt switches once where the handler can use DS and ES, and nothing else ever
switches. -/
theorem timerDriven_of_run {es : List Event} (hboot : Booted img s₀)
    (hes : ∀ e ∈ es, SparesTimer e ∧ SparesPolls e) (hrun : Lts.run (step img) s₀ es = some s) :
    DrivenByTimer img s₀ es s := by
  have hinv := hboot.inv_run (fun e he => (hes e he).1.1) hrun
  have hquiet := quiet_of_run hboot.inv hboot.quiet
    (fun e he => ⟨(hes e he).1.1, (hes e he).2⟩) hrun
  have hdriven (e : Event) (s' : Machine) (he : SparesTimer e)
      (hstep : SecOS.step img s e = some s') : TimerDriven s e s' :=
    (effect_of_step hinv hstep).timerDriven hinv he.2
  refine ⟨clockEois_of_run hboot.inv (fun e he => (hes e he).1) hrun,
    fun _ _ => hquiet.reads _, fun σ hrequest => ?_, hdriven⟩
  have hspare : SparesTimer (.irq 0 σ) := ⟨trivial, fun _ heq => Event.noConfusion heq⟩
  have hstep := step_irq_zero (σ := σ) hinv
  simp only [(hinv.requested.mp hrequest).2, true_and] at hstep
  constructor
  · rintro ⟨s', hs', -⟩
    by_contra hunusable
    rw [hstep, if_neg hunusable] at hs'
    cases hs'
  · intro husable
    rw [if_pos husable] at hstep
    exact ⟨_, hstep, hdriven _ _ hspare hstep⟩

theorem timerDriven_of_run_sample :
    DrivenByTimer sampleImage sample [.irq 0 sampleScratch] sampleTask :=
  timerDriven_of_run booted_sample (by simp [SparesTimer, SparesPics, SparesPolls]) run_sampleTask

/-! ## The open gate -/

/-- Level 3 may call two gates. -/
theorem dpl_examIdt (img : Image) (v : Fin 256) :
    (∃ g, (examIdt img)[v.val]? = some g ∧ g.dpl = 3) ↔ v = 32 ∨ v = 0x80 := by
  obtain ⟨g, hg, hgate⟩ := gate_examIdt img v
  have hlevel : gateLevel v = 3 ↔ v = 32 ∨ v = 0x80 := by
    rw [Fin.ext_iff, Fin.ext_iff, gateLevel]
    by_cases h : v.val = clockVector ∨ v.val = syscallVector
    · rw [if_pos h]
      exact ⟨fun _ => h, fun _ => rfl⟩
    · rw [if_neg h]
      exact ⟨fun h3 => absurd h3 (by decide), fun hv => absurd hv h⟩
  rw [← hlevel, ← hgate.dpl]
  constructor
  · rintro ⟨g', hg', hdpl⟩
    rw [hg] at hg'
    exact Option.some.inj hg' ▸ hdpl
  · intro hdpl
    exact ⟨g, hg, hdpl⟩

/-- `int $0x20` at level 3 runs the clock handler. -/
theorem step_int_clock (h : Inv img s (some i)) (husable : s.clockUsable = true) :
    step img s (.int 32 σ) = some (s.afterInt.clockDone img σ (some i)) := by
  have hm : UserMode s i := h.mode
  obtain ⟨g, hg, hgate⟩ := gate_examIdt img 32
  have hidt : s.idt[(32 : Fin 256).val]? = some g := by rw [h.kernel.idt, hg]
  have hm' : Mode img s.afterInt (some i) := hm.afterInt
  have hint := interrupt_eq h.kernel.afterInt hm' 32 none
  have hclock := handle_clock_of_mode (σ := σ) h.kernel.afterInt hm'
  have hlevel : (gateLevel 32).ult 3 = false := rfl
  simp only [step, softInt, hm.cpl, ne_eq, not_true_eq_false, hidt, Option.bind_eq_bind,
    Option.bind_some, hgate.dpl, hlevel, Bool.false_eq_true, if_false, serve]
  refine (congrArg (fun o => o.bind (handle img σ handlerFuel)) hint).trans ?_
  exact hclock.trans (if_pos husable)

/-- Task 0 hands over without the timer. -/
theorem int_switches_sampleTask :
    ∃ s', Booted sampleImage sample ∧
      Lts.run (step sampleImage) sample [.irq 0 sampleScratch] = some sampleTask ∧
      step sampleImage sampleTask (.int 32 sampleScratch) = some s' ∧
      ¬ TimerDriven sampleTask (.int 32 sampleScratch) s' := by
  have husable : sampleTask.clockUsable = true := rfl
  refine ⟨_, booted_sample, run_sampleTask, step_int_clock inv_sampleTask husable, ?_⟩
  intro htimer
  have hsame : Unswitched sampleTask (sampleTask.afterInt.clockDone sampleImage sampleScratch
    (some 0)) := htimer
  have hidx : idxWord (some 1) = idxWord (some 0) := hsame.currentTaskIdx
  exact absurd hidx (by decide)

end Machine

end SecOS
