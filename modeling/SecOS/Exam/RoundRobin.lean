-- SUMMARY: The two tasks run in turn, and each is resumed with the registers it was interrupted with.
import SecOS.Base.RoundRobin
import SecOS.Exam.Service
import SecOS.Exam.TimerDriven

/-!
# Round robin of the tasks

Between two of its turns the registers of a task are in `tasks[].context`, shifted by
two words against the fields of the C type, and the context of one task is written over
the frame of the other. The machine still simulates the abstract round robin, in which
the registers of a process that waits are left alone.
-/

namespace SecOS

open X86

namespace Machine

open RoundRobin (turn)

variable {img : Image} {σ : Scratch} {s s' s₀ : Machine} {i : Fin 2}

/-! ## Abstraction -/

/-- What an event other than the timer's does to the registers of the task that runs. -/
def computes : Event → Regs → Regs
  | .user u, r =>
    { eax := u.eax, ecx := u.ecx, edx := u.edx, ebx := u.ebx, esp := u.esp, ebp := u.ebp
      esi := u.esi, edi := u.edi, eip := u.eip, cs := u.cs, ss := u.ss
      eflags := Eflags.blend r.eflags u.eflags Eflags.user }
  | .int _ _, r => { r with eip := r.eip + 2 }
  | .portIn _ _ value _, r => { r with eax := value }
  | _, r => r

/-- The registers with which `config_task` has task `t` start. -/
structure StartsAs (t : Task) (r : Regs) : Prop where
  eip : r.eip = t.function
  esp : r.esp = t.stack
  cs : r.cs = c3Sel
  ss : r.ss = d3Sel

/-- The abstract label of an event. -/
def Labelled (img : Image) (e : Event) (d : RoundRobin.Label (Fin 2) Regs) : Prop :=
  if timerEvent e = true then ∃ start, d = .tick start ∧ ∀ i, StartsAs (examTasks img i) (start i)
  else d = .compute (computes e)

/-- The running task has its registers in the processor, the other one in its context,
once it has one. -/
structure Represents (s : Machine) (a : RoundRobin.State (Fin 2) Regs) : Prop where
  currentTaskIdx : s.currentTaskIdx = idxWord a.current
  running : ∀ i, a.current = some i → a.regs i = some (regsOf s.cpu)
  waiting : ∀ i, a.current ≠ some i →
    a.regs i = if (s.tasks i).contextSaved = 1 then some (ctxRegs (s.tasks i).context) else none

variable {a : RoundRobin.State (Fin 2) Regs}

/-- An event that only changes the registers of the task that runs. -/
theorem Represents.compute (h : Represents s a) {f : Regs → Regs}
    (hidx : s'.currentTaskIdx = s.currentTaskIdx) (htasks : s'.tasks = s.tasks)
    (hregs : regsOf s'.cpu = f (regsOf s.cpu)) : Represents s' (a.compute f) where
  currentTaskIdx := hidx.trans h.currentTaskIdx
  running i hi := by
    refine (if_pos hi).trans ?_
    rw [h.running i hi, hregs]
    rfl
  waiting i hi := by
    refine (if_neg hi).trans ?_
    rw [h.waiting i hi, htasks]

/-- The clock interrupt is a tick: the context that is saved has the registers of the
task that is left, and those of the next task come from its context or its start. -/
theorem Represents.clockDone (h : Represents s a) (hm : Mode img s a.current) :
    Represents (s.clockDone img σ a.current)
      (a.tick nextOf fun i => launchRegs σ s.cpu.eflags (s.tasks i)) where
  currentTaskIdx := rfl
  running i hi := by
    obtain rfl : nextOf a.current = i := Option.some.inj hi
    have hne : a.current ≠ some (nextOf a.current) := by
      intro hcur
      have hsome := nextOf_ne (nextOf a.current)
      rw [← hcur] at hsome
      exact hsome rfl
    refine (if_pos rfl).trans ?_
    rw [h.waiting _ hne]
    simp only [Machine.clockDone, regsOf_resumeCpu, nextRegs]
    split
    · rfl
    · rfl
  waiting i hi := by
    have hnext : ¬ nextOf a.current = i := fun hi' => hi (congrArg some hi')
    refine (if_neg hnext).trans ?_
    simp only [Machine.clockDone, savedTasks_apply]
    by_cases hcur : a.current = some i
    · rw [if_pos hcur, h.running i hcur]
      have hcpl : s.cpu.cpl ≠ 0 := by
        have hm' : Mode img s (some i) := hcur ▸ hm
        rw [UserMode.cpl hm']
        decide
      simp only [if_true, isrSaved, load_isrPushed hcpl, ctxRegs_isrCtx]
    · rw [if_neg hcur, h.waiting i hcur]

theorem labelled_tick {start : Fin 2 → Regs} (hstart : ∀ i, StartsAs (examTasks img i) (start i)) :
    Labelled img (.irq 0 σ) (.tick start) := ⟨start, rfl, hstart⟩

theorem labelled_compute {e : Event} (h : ¬ timerEvent e = true) :
    Labelled img e (.compute (computes e)) := by
  unfold Labelled
  rw [if_neg h]

theorem Labelled.isTick {e : Event} {d : RoundRobin.Label (Fin 2) Regs} (h : Labelled img e d) :
    d.isTick = timerEvent e := by
  unfold Labelled at h
  split at h
  · next htimer =>
    obtain ⟨start, rfl, -⟩ := h
    exact htimer.symm
  · next htimer =>
    rw [h]
    exact (Bool.eq_false_iff.mpr htimer).symm

theorem countP_isTick {es : List Event} {ds : List (RoundRobin.Label (Fin 2) Regs)}
    (h : List.Forall₂ (Labelled img) es ds) :
    ds.countP RoundRobin.Label.isTick = es.countP timerEvent := by
  induction h with
  | nil => rfl
  | cons hd _ ih => rw [List.countP_cons, List.countP_cons, hd.isTick, ih]

theorem startsAs_launchRegs (σ : Scratch) (flags : Word) (t : Task) :
    StartsAs t (launchRegs σ flags t) := ⟨rfl, rfl, rfl, rfl⟩

theorem StartsAs.of_examTasks (hk : Kernel img s) {r : Regs} :
    StartsAs (examTasks img i) r ↔ StartsAs (s.tasks i) r := by
  rw [hk.tasks i]
  exact ⟨fun h => ⟨h.eip, h.esp, h.cs, h.ss⟩, fun h => ⟨h.eip, h.esp, h.cs, h.ss⟩⟩

/-! ## Simulation -/

/-- The invariant, and the state of the round robin that the machine stands for. -/
def Refines (img : Image) (s : Machine) (a : RoundRobin.State (Fin 2) Regs) : Prop :=
  Inv img s a.current ∧ Represents s a

theorem Refines.timer (h : Refines img s a) (hstep : step img s (.irq 0 σ) = some s') :
    ∃ start, (∀ i, StartsAs (examTasks img i) (start i)) ∧
      Refines img s' (a.tick nextOf start) := by
  obtain ⟨hinv, hrep⟩ := h
  have heff := effect_of_step hinv hstep
  have hinv' := heff.inv hinv trivial
  refine ⟨fun i => launchRegs σ s.cpu.eflags (s.tasks i), fun i => ?_, hinv', ?_⟩
  · exact (StartsAs.of_examTasks hinv.kernel).mpr (startsAs_launchRegs ..)
  · cases heff with
    | clockIrq =>
      have hrep' : Represents (s.withPics (servicing s.pics 0)) a :=
        ⟨hrep.currentTaskIdx, hrep.running, hrep.waiting⟩
      exact hrep'.clockDone (hinv.mode.withPics _)
    | device hn => exact absurd hn.1 (Nat.lt_irrefl 0)

theorem Refines.compute (h : Refines img s a) {e : Event} (hok : SparesTimer e)
    (htimer : ¬ timerEvent e = true) (hstep : step img s e = some s') :
    Refines img s' (a.compute (computes e)) := by
  obtain ⟨hinv, hrep⟩ := h
  have heff := effect_of_step hinv hstep
  have hinv' := heff.inv hinv hok.1
  have hcur : taskAfter a.current e = a.current := by
    refine if_neg ?_
    cases e with
    | irq n σ => exact htimer
    | int n σ =>
      intro hn
      obtain rfl : n = 32 := Fin.ext (beq_iff_eq.mp hn)
      exact hok.2 σ rfl
    | _ => exact Bool.false_ne_true
  rw [hcur] at hinv'
  refine ⟨hinv', ?_⟩
  cases heff with
  | user hcur hcs hss hmem => exact hrep.compute rfl rfl rfl
  | clockIrq hfree σ => exact absurd rfl htimer
  | clockInt hcur σ => exact absurd rfl (hok.2 σ)
  | syscall hcur σ hread => exact hrep.compute rfl rfl rfl
  | device hn hfree σ => exact hrep.compute rfl rfl (regsOf_restored _ _)
  | nmi hcur σ => exact hrep.compute rfl rfl (regsOf_restored _ _)
  | portOut hcur hok σ =>
    rw [outs_eq]
    exact hrep.compute rfl rfl rfl
  | portIn hcur hok hreads σ => exact hrep.compute rfl rfl rfl

theorem irq_of_timerEvent {e : Event} (h : timerEvent e = true) : ∃ σ, e = .irq 0 σ := by
  cases e with
  | irq n σ =>
    obtain rfl : n = 0 := beq_iff_eq.mp h
    exact ⟨σ, rfl⟩
  | _ => cases h

theorem simulates_roundRobin (img : Image) :
    Lts.Simulates (step img) (RoundRobin.step nextOf) SparesTimer (Labelled img) (Refines img) := by
  intro s a e s' h hok hstep
  by_cases htimer : timerEvent e = true
  · obtain ⟨σ, rfl⟩ := irq_of_timerEvent htimer
    obtain ⟨start, hstart, h'⟩ := h.timer hstep
    exact ⟨.tick start, _, labelled_tick hstart, rfl, h'⟩
  · exact ⟨.compute (computes e), _, labelled_compute htimer, rfl, h.compute hok htimer hstep⟩

theorem Booted.refines (h : Booted img s) : Refines img s .init where
  left := h.inv
  right :=
    { currentTaskIdx := h.inv.mode.currentTaskIdx
      running := fun i hi => by cases hi
      waiting := fun i _ => by
        have hidle : IdleMode img s := h.inv.mode
        rw [hidle.unsaved i]
        rfl }

/-! ## Over runs -/

theorem turn_nextOf (k : Nat) :
    (turn nextOf)^[k + 1] none = some ⟨k % 2, Nat.mod_lt k Nat.two_pos⟩ := by
  induction k with
  | zero => rfl
  | succ k ih =>
    rw [Function.iterate_succ_apply', ih, turn, nextOf]
    refine congrArg some (Fin.ext ?_)
    simp only [Fin.val_rev]
    omega

/-- The machine after `k` ticks: tasks 0, 1, 0, 1, … have run, and whenever level 3
executes it is in the address space and on the kernel stack of the task whose turn it is. -/
structure InTurn (s : Machine) (k : Nat) : Prop where
  currentTaskIdx : s.currentTaskIdx = if k = 0 then -1 else BitVec.ofNat 32 ((k - 1) % 2)
  cpl : s.cpu.cpl = if k = 0 then 0 else 3
  space : s.cpu.cpl = 3 → ∃ i, taskAt s.currentTaskIdx = some i ∧ s.cpu.cr3 = (s.tasks i).pgd ∧
    s.tss.s0.esp = (s.tasks i).interruptStack

theorem Refines.inTurn {k : Nat} (h : Refines img s a) (hk : a.current = (turn nextOf)^[k] none) :
    InTurn s k where
  currentTaskIdx := by
    rw [h.2.currentTaskIdx, hk]
    cases k with
    | zero => rfl
    | succ k =>
      rw [turn_nextOf]
      rfl
  cpl := by
    have hm := h.1.mode
    rw [hk] at hm
    cases k with
    | zero => exact IdleMode.cpl hm
    | succ k =>
      rw [turn_nextOf] at hm
      exact UserMode.cpl hm
  space hcpl := by
    obtain ⟨i, hcur, hm⟩ := h.1.mode.task_of_cpl hcpl
    refine ⟨i, ?_, ?_, ?_⟩
    · rw [hm.currentTaskIdx, taskAt_idxWord]
    · rw [hm.cr3, h.1.kernel.pgd]
    · rw [hm.esp0, h.1.kernel.interruptStack]

/-- The abstract run that goes with a run from the boot. -/
theorem refines_of_run {es : List Event} (hboot : Booted img s₀) (hes : ∀ e ∈ es, SparesTimer e)
    (hrun : Lts.run (step img) s₀ es = some s) :
    ∃ ds a, List.Forall₂ (Labelled img) es ds ∧
      Lts.run (RoundRobin.step nextOf) .init ds = some a ∧ Refines img s a ∧
      a.current = (turn nextOf)^[es.countP timerEvent] none := by
  obtain ⟨ds, a, hlabels, hds, href⟩ := (simulates_roundRobin img).run hboot.refines hes hrun
  refine ⟨ds, a, hlabels, hds, href, ?_⟩
  rw [RoundRobin.current_of_run hds, countP_isTick hlabels]
  rfl

/-- In the first two ticks a task starts. -/
theorem startsAs_of_run {es : List Event} (hboot : Booted img s₀) (hes : ∀ e ∈ es, SparesTimer e)
    (hrun : Lts.run (step img) s₀ es = some s) (hfirst : es.countP timerEvent < 2)
    (hstep : step img s (.irq 0 σ) = some s') :
    ∃ i, taskAt s'.currentTaskIdx = some i ∧ StartsAs (s'.tasks i) (regsOf s'.cpu) := by
  obtain ⟨ds, a, hlabels, hds, href, hcur⟩ := refines_of_run hboot hes hrun
  obtain ⟨start, hstart, href'⟩ := href.timer hstep
  have hnone : a.regs (nextOf a.current) = none := by
    refine RoundRobin.regs_of_run hds fun k hk => ?_
    rw [hcur]
    rw [countP_isTick hlabels] at hk
    generalize es.countP timerEvent = n at hk hfirst
    interval_cases n
    · obtain rfl : k = 0 := by omega
      decide
    · interval_cases k
      · decide
      · decide
  refine ⟨nextOf a.current, ?_, ?_⟩
  · rw [href'.2.currentTaskIdx]
    exact taskAt_idxWord _
  · have hregs := href'.2.running (nextOf a.current) rfl
    have hstarted : (a.tick nextOf start).regs (nextOf a.current)
        = some (start (nextOf a.current)) := by
      refine (if_pos rfl).trans ?_
      rw [hnone]
      rfl
    rw [hstarted] at hregs
    rw [← Option.some.inj hregs]
    exact (StartsAs.of_examTasks href'.1.kernel).mp (hstart _)

/-- A task that the timer interrupts goes on with the next tick but one as if nothing had
happened. -/
theorem regsOf_of_resume {es : List Event} {σ' : Scratch} (h : Refines img s a)
    (hcur : a.current = some i) (hes : ∀ e ∈ es, SparesTimer e ∧ timerEvent e = false)
    (hrun : Lts.run (step img) s (.irq 0 σ :: es ++ [.irq 0 σ']) = some s') :
    s'.currentTaskIdx = s.currentTaskIdx ∧ regsOf s'.cpu = regsOf s.cpu := by
  obtain ⟨t, hpre, hlast⟩ := Lts.run_snoc.mp hrun
  obtain ⟨u, hfirst, hmid⟩ := Lts.run_cons.mp hpre
  obtain ⟨start, -, hu⟩ := h.timer hfirst
  obtain ⟨ds, b, hlabels, hds, ht⟩ :=
    (simulates_roundRobin img).run hu (fun e he => (hes e he).1) hmid
  obtain ⟨start', -, hs'⟩ := ht.timer hlast
  have hticks : ds.countP RoundRobin.Label.isTick = 0 := by
    rw [countP_isTick hlabels, List.countP_eq_zero]
    exact fun e he => by rw [(hes e he).2]; exact Bool.false_ne_true
  have hnext : nextOf b.current = i := by
    rw [RoundRobin.current_of_run hds, hticks]
    simp only [Function.iterate_zero, id_eq, RoundRobin.State.tick, hcur, nextOf, Fin.rev_rev]
  have hwait : b.regs i = (a.tick nextOf start).regs i := by
    refine RoundRobin.regs_of_run hds fun k hk => ?_
    obtain rfl : k = 0 := by omega
    intro hi
    exact nextOf_ne i (by rw [← hcur]; exact Option.some.inj hi)
  have hbefore := hwait.trans (RoundRobin.regs_tick start (h.2.running i hcur))
  have hregs : (b.tick nextOf start').regs i = _ := RoundRobin.regs_tick start' hbefore
  refine ⟨?_, ?_⟩
  · rw [hs'.2.currentTaskIdx, h.2.currentTaskIdx, hcur]
    exact congrArg (fun j => idxWord (some j)) hnext
  · have hrunning := hs'.2.running i (congrArg some hnext)
    exact Option.some.inj (hrunning.symm.trans hregs)

/-- The schedule `es` has brought the machine from the boot to `s` as the round robin would
have: a tick comes to the next task, which starts as configured the first time, and goes on
as it was interrupted ever after. -/
structure TakesTurns (img : Image) (s₀ : Machine) (es : List Event) (s : Machine) : Prop where
  run : Lts.run (step img) s₀ es = some s
  simulates : ∃ ds a, List.Forall₂ (Labelled img) es ds ∧
    Lts.run (RoundRobin.step nextOf) .init ds = some a ∧ Represents s a
  inTurn : InTurn s (es.countP timerEvent)
  /-- When the next tick comes through. -/
  progress : ∀ σ, (∃ s', step img s (.irq 0 σ) = some s') ↔
    blockedLine s.pics 0 = false ∧ s.clockUsable = true
  starts : ∀ σ s', es.countP timerEvent < 2 → step img s (.irq 0 σ) = some s' →
    ∃ i, taskAt s'.currentTaskIdx = some i ∧ StartsAs (s'.tasks i) (regsOf s'.cpu)
  resumes : ∀ fs σ σ' s', 0 < es.countP timerEvent →
    (∀ e ∈ fs, SparesTimer e ∧ timerEvent e = false) →
    Lts.run (step img) s (.irq 0 σ :: fs ++ [.irq 0 σ']) = some s' →
    s'.currentTaskIdx = s.currentTaskIdx ∧ regsOf s'.cpu = regsOf s.cpu

theorem takesTurns_of_run {es : List Event} (hboot : Booted img s₀) (hes : ∀ e ∈ es, SparesTimer e)
    (hrun : Lts.run (step img) s₀ es = some s) : TakesTurns img s₀ es s := by
  obtain ⟨ds, a, hlabels, hds, href, hcur⟩ := refines_of_run hboot hes hrun
  refine ⟨hrun, ⟨ds, a, hlabels, hds, href.2⟩, href.inTurn hcur, ?_, ?_, ?_⟩
  · intro σ
    rw [step_irq_zero href.1, ← Option.isSome_iff_exists, Option.isSome_ite]
  · intro σ s' hfirst hstep
    exact startsAs_of_run hboot hes hrun hfirst hstep
  · intro fs σ σ' s' hpos hfs hresume
    obtain ⟨k, hk⟩ := Nat.exists_eq_add_one.mpr hpos
    rw [hk, turn_nextOf] at hcur
    exact regsOf_of_resume href hcur hfs hresume

/-! ## Over schedules -/

theorem Offered.sparesTimer {e : Event} (h : Offered s e) (hspare : SparesPics e) :
    SparesTimer e := by
  refine ⟨hspare, ?_⟩
  rintro σ rfl
  exact absurd h.1 (by decide)

/-- From the boot, a schedule goes on as the round robin does exactly when every event of it
is bearable where it comes. -/
theorem roundRobin_iff_of_schedule {es : List Event} (hboot : Booted img s₀)
    (hes : ∀ e ∈ es, SparesPics e) (hoffered : Lts.Along (step img) Offered s₀ es) :
    (∃ s, TakesTurns img s₀ es s) ↔ Lts.Along (step img) Bearable s₀ es := by
  rw [← exists_run_iff hboot.inv hes hoffered]
  constructor
  · rintro ⟨s, hturns⟩
    exact ⟨s, hturns.run⟩
  · rintro ⟨s, hrun⟩
    have htimer := hoffered.forall_mem hrun fun s e he hspare =>
      Offered.sparesTimer (s := s) (e := e) he hspare
    exact ⟨s, takesTurns_of_run hboot (fun e he => htimer e he (hes e he)) hrun⟩

theorem roundRobin_iff_sample :
    (∃ s, TakesTurns sampleImage sample [.irq 0 sampleScratch] s) ↔
      Lts.Along (step sampleImage) Bearable sample [.irq 0 sampleScratch] :=
  roundRobin_iff_of_schedule booted_sample (by simp [SparesPics])
    (Lts.along_cons.mpr ⟨booted_sample.inv.requested.mpr ⟨by decide, rfl⟩,
      fun _ _ => Lts.along_nil⟩)

/-- Task 0 loads the null selector into ES. -/
def dropEs : UserStep := { spy with eip := 0x404002, es := 0 }

def sampleDropEs : Machine := { sampleTask with cpu := userCpu sampleTask.cpu dropEs }

theorem step_dropEs : step sampleImage sampleTask (.user dropEs) = some sampleDropEs :=
  step_user inv_sampleTask rfl rfl (by simp [dropEs, spy]) rfl

/-- The next tick ends in a fault of the kernel. -/
theorem not_takesTurns_dropEs :
    ¬ ∀ img s₀ es, Booted img s₀ → (∀ e ∈ es, SparesPics e) →
        Lts.Along (step img) Offered s₀ es → ∃ s, TakesTurns img s₀ es s := by
  intro hall
  have hinv : Inv sampleImage sampleDropEs (some 0) :=
    (effect_of_step inv_sampleTask step_dropEs).inv inv_sampleTask trivial
  have hoffered : Lts.Along (step sampleImage) Offered sample
      [.irq 0 sampleScratch, .user dropEs, .irq 0 sampleScratch] := by
    refine Lts.along_cons.mpr ⟨booted_sample.inv.requested.mpr ⟨by decide, rfl⟩, fun u hu => ?_⟩
    obtain rfl := Option.some.inj (step_sampleTask.symm.trans hu)
    refine Lts.along_cons.mpr ⟨Option.isSome_iff_exists.mpr ⟨_, step_dropEs⟩, fun u hu => ?_⟩
    obtain rfl := Option.some.inj (step_dropEs.symm.trans hu)
    exact Lts.along_cons.mpr ⟨hinv.requested.mpr ⟨by decide, rfl⟩, fun _ _ => Lts.along_nil⟩
  obtain ⟨s, hturns⟩ := hall sampleImage sample _ booted_sample (by simp [SparesPics]) hoffered
  obtain ⟨u, hu, hrest⟩ := Lts.run_cons.mp hturns.run
  obtain rfl := Option.some.inj (step_sampleTask.symm.trans hu)
  obtain ⟨u, hu, hlast⟩ := Lts.run_cons.mp hrest
  obtain rfl := Option.some.inj (step_dropEs.symm.trans hu)
  obtain ⟨u, hu, -⟩ := Lts.run_cons.mp hlast
  have hunusable : ¬ sampleDropEs.clockUsable = true := by decide
  rw [step_irq_zero hinv, if_neg fun hand => hunusable hand.2] at hu
  cases hu

end Machine

end SecOS
