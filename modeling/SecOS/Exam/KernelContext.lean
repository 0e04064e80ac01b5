-- SUMMARY: What the clock handler saves when requests come at every instruction boundary: contexts of level 3, unless the timer interrupts the launch of a task.
import SecOS.Exam.Launch
import SecOS.Exam.Sample

/-!
# Kernel contexts

The clock handler takes `current_task_idx` other than -1 for the sign that a task was
interrupted. In a run with requests at all instruction boundaries the kernel is
interrupted in two places only: in the loop of `config`, where the index is still -1,
and while it starts a task, where the index is already that of the task. A tick in the
second place is saved as if it had interrupted the task.
-/

namespace SecOS

open X86

namespace Machine

variable {img : Image} {σ : Scratch} {s t : Machine} {cur : Option (Fin 2)}
  {e : FineEvent}

/-! ## The invariant -/

/-- Level 3, the loop of `config`, or between two instructions of a launch: the states
in which a request can come. -/
def AtRest (img : Image) (s : Machine) : Prop :=
  (∃ cur, Inv img s cur) ∨ ∃ base i j, j ≤ 10 ∧ Launching img base i j s

/-- Level 3 does not initialise an interrupt controller anew. -/
def FineSparesPics (e : FineEvent) : Prop := ∀ σ e', wholeEvent σ e = some e' → SparesPics e'

theorem Inv.savesTask (h : Inv img s cur) : SavesTask img s := by
  cases cur with
  | none =>
    have hm : IdleMode img s := h.mode
    have hat : s.At img ⟨.idle, 0⟩ := ⟨hm.eip, hm.cpl⟩
    exact savesTask_of_at hat rfl (by simp)
  | some i =>
    have hm : UserMode s i := h.mode
    exact savesTask_of_cpl (by rw [hm.cpl]; decide)

theorem AtRest.savesTask (h : AtRest img s) : SavesTask img s := by
  rcases h with ⟨cur, hinv⟩ | ⟨base, i, j, hj, hlaunch⟩
  · exact hinv.savesTask
  · exact hlaunch.savesTask hj

theorem Settles.savesTask (h : Settles img (AtRest img) s) : SavesTask img s := by
  cases h with
  | done h => exact h.savesTask
  | next hcpl hwait hsave hnext => exact hsave

/-! ## Events between handlers -/

/-- An event is over at once, or what its handler leaves is a state of a run. -/
theorem Inv.atRest_or_handled (h : Inv img s cur) (hspare : FineSparesPics e)
    (hexec : ∀ σ, e ≠ .exec σ) (hstep : fineStep img s e = some t) :
    AtRest img t ∨ ∀ σ u, t.handle img σ handlerFuel = some u → AtRest img u := by
  have hinv {σ : Scratch} {e' : Event} {u : Machine} (he : wholeEvent σ e = some e')
      (hu : step img s e' = some u) : AtRest img u :=
    .inl ⟨_, (effect_of_step h hu).inv h (hspare σ e' he)⟩
  by_cases hover : ∃ σ e', wholeEvent σ e = some e' ∧ step img s e' = some t
  · obtain ⟨σ, e', he, hover⟩ := hover
    exact .inl (hinv he hover)
  · refine .inr fun σ u hu => ?_
    obtain ⟨e', he⟩ : ∃ e', wholeEvent σ e = some e' := by
      cases e with
      | exec σ => exact absurd rfl (hexec σ)
      | _ => exact ⟨_, rfl⟩
    have hhandle := (step_wholeEvent he hstep).resolve_left fun hs => hover ⟨σ, e', he, hs⟩
    exact hinv he (hhandle.trans hu)

/-- The handler of a vector runs undisturbed, but for the start of a task. -/
theorem settles_interrupt (hk : Kernel img s) (hm : Mode img s cur) {v : Fin 256}
    {err : Option Word} (hv : v.val < 20 ∨ 32 ≤ v.val) (herr : err.isSome = hasErrorCode v)
    (hpics : Serviceable s.pics)
    (hint : s.interrupt v err = some t)
    (hend : ∀ σ u, t.handle img σ handlerFuel = some u → AtRest img u) :
    Settles img (AtRest img) t := by
  rw [interrupt_eq hk hm] at hint
  obtain rfl := Option.some.inj hint
  have hnone (hge : 32 ≤ v.val) : err = none := by
    rw [hasErrorCode_of_ge hge] at herr
    exact Option.isNone_iff_eq_none.mp (Option.isSome_eq_false_iff.mp herr)
  by_cases hclock : v.val = clockVector
  · obtain rfl : v = 32 := Fin.ext hclock
    obtain rfl := hnone le_rfl
    refine settles_clock hk hm (fun σ => .inr ?_) hend
    exact ⟨_, _, 0, Nat.zero_le 10, .of_enterLaunch hk hm hpics _ _⟩
  · by_cases hsys : v.val = syscallVector
    · obtain rfl : v = 0x80 := Fin.ext hsys
      obtain rfl := hnone (by decide)
      exact settles_syscall hend
    · rw [gateBlock_stub ⟨hclock, hsys⟩] at hend ⊢
      exact settles_stub hv hend

section Rest

variable (h : Inv img s cur) (hend : ∀ σ u, t.handle img σ handlerFuel = some u → AtRest img u)

include h hend

theorem settles_gp {err : Word} (hstep : s.interrupt 13 (some err) = some t) :
    Settles img (AtRest img) t :=
  settles_interrupt (v := 13) h.kernel h.mode (.inl (by decide)) rfl h.pics hstep hend

theorem settles_int {n : Fin 256} (hstep : s.raiseInt n = some t) :
    Settles img (AtRest img) t := by
  simp only [raiseInt] at hstep
  split at hstep
  · cases hstep
  · next hcpl =>
    obtain ⟨i, rfl, hm⟩ := h.mode.task_of_cpl (not_not.mp hcpl)
    obtain ⟨g, hg, hgate⟩ := gate_examIdt img n
    have hidt : s.idt[n.val]? = some g := by rw [h.kernel.idt, hg]
    simp only [hidt, Option.bind_eq_bind, Option.bind_some, hgate.dpl, hm.cpl] at hstep
    have hm' : Mode img s.afterInt (some i) := hm.afterInt
    by_cases hlevel : (gateLevel n).ult 3 = true
    · rw [if_pos hlevel] at hstep
      exact settles_gp h hend hstep
    · rw [if_neg hlevel] at hstep
      have hn : 32 ≤ n.val := by
        by_contra hlt
        have hzero : gateLevel n = 0 := if_neg (by simp only [clockVector, syscallVector]; omega)
        exact hlevel (hzero ▸ rfl)
      have herr : (none : Option Word).isSome = hasErrorCode n := (hasErrorCode_of_ge hn).symm
      exact settles_interrupt h.kernel.afterInt hm' (.inr hn) herr h.pics hstep hend

theorem settles_fault {v : Nat} {err cr2 : Word} (hstep : s.raiseFault v err cr2 = some t) :
    Settles img (AtRest img) t := by
  simp only [raiseFault] at hstep
  split at hstep
  · cases hstep
  · next hnot =>
    have hv : v < 20 := Nat.lt_of_not_le fun hv => hnot (.inr hv)
    exact settles_interrupt (v := ⟨v, by omega⟩) (h.kernel.withCr2 cr2) (h.mode.withCr2 cr2)
      (.inl hv) (isSome_errorCode v err) h.pics hstep hend

theorem settles_irq {n : Nat} (hstep : s.irq n = some t) : Settles img (AtRest img) t := by
  simp only [irq, h.mode.interruptible, h.pics.accept, Bool.not_true, Bool.false_eq_true, if_false,
    Option.bind_eq_bind] at hstep
  split at hstep
  · next hn =>
    obtain ⟨⟨hlt, -⟩, -⟩ := hn
    have hv := irqVector_lt hlt
    rw [Option.bind_some, toNat_irqVector hlt] at hstep
    exact settles_interrupt (v := ⟨irqVector n, hv⟩) (h.kernel.withPics (servicing s.pics n))
      (h.mode.withPics _) (.inr (Nat.le_add_right 32 n)) (isSome_irqVector n) h.pics.servicing
      hstep hend
  · cases hstep

end Rest

/-- The loop of `config` goes round. -/
theorem Inv.exec (h : Inv img s cur) (hstep : s.exec img σ = some t) : Inv img t cur := by
  cases cur with
  | none =>
    have hm : IdleMode img s := h.mode
    have hat : s.At img ⟨.idle, 0⟩ := ⟨hm.eip, hm.cpl⟩
    obtain rfl := Option.some.inj ((exec_at hat rfl).symm.trans hstep)
    exact
      { kernel := h.kernel.withCpu
        pics := h.pics
        mode := { hm with eip := rfl, shadow := rfl } }
  | some i =>
    have hm : UserMode s i := h.mode
    have hcpl : s.cpu.cpl ≠ 0 := by rw [hm.cpl]; decide
    rw [Machine.exec, if_pos hcpl] at hstep
    cases hstep

/-- Every event in a state of a run leads to such a state, or into a handler that runs
undisturbed to one. -/
theorem Inv.settles_step (h : Inv img s cur) (hspare : FineSparesPics e)
    (hstep : fineStep img s e = some t) : Settles img (AtRest img) t := by
  by_cases hexec : ∃ σ, e = .exec σ
  · obtain ⟨σ, rfl⟩ := hexec
    exact .done (.inl ⟨cur, h.exec hstep⟩)
  rcases h.atRest_or_handled hspare (fun σ he => hexec ⟨σ, he⟩) hstep with hrest | hend
  · exact .done hrest
  cases e with
  | user u => exact .done (.inl ⟨_, (effect_of_user h.kernel h.mode hstep).inv h trivial⟩)
  | int n => exact settles_int h hend hstep
  | fault v err cr2 => exact settles_fault h hend hstep
  | portOut port bs =>
    simp only [fineStep, raisePortOut] at hstep
    obtain ⟨hcpl, hio⟩ := cpl_eq_three hstep
    obtain ⟨i, hcur, -⟩ := h.mode.task_of_cpl hcpl
    split at hio
    · next hok =>
      cases hio
      exact .done (.inl ⟨_, (Effect.portOut hcur hok sampleScratch).inv h
        (hspare sampleScratch _ rfl)⟩)
    · exact settles_gp h hend hio
  | portIn port width value =>
    simp only [fineStep, raisePortIn] at hstep
    obtain ⟨hcpl, hio⟩ := cpl_eq_three hstep
    obtain ⟨i, hcur, -⟩ := h.mode.task_of_cpl hcpl
    split at hio
    · next hok =>
      obtain ⟨pics, hreads, rfl⟩ := Option.map_eq_some_iff.mp hio
      exact .done (.inl ⟨_, (Effect.portIn hcur hok hreads sampleScratch).inv h trivial⟩)
    · exact settles_gp h hend hio
  | irq n => exact settles_irq h hend hstep
  | exec σ => exact absurd ⟨σ, rfl⟩ hexec

/-! ## Events in a launch -/

/-- The kernel is starting a task. -/
structure InLaunch (img : Image) (s : Machine) : Prop where
  cpl : s.cpu.cpl = 0
  pc : ∃ j, img.pcAt s.cpu.eip = some ⟨.firstLaunch, j⟩

theorem Launching.inLaunch {base : Word} {i : Fin 2} {j : Nat} (h : Launching img base i j s)
    (hj : j ≤ 10) : InLaunch img s where
  cpl := h.cpl
  pc := ⟨j, by
    have hvalid : Pc.Valid ⟨.firstLaunch, j⟩ := Nat.lt_succ_of_le hj
    rw [h.eip]
    exact img.pcAt_addr _ hvalid⟩

/-- Nothing that asks for level 3 happens in the kernel. -/
theorem fineStep_of_cpl (hcpl : s.cpu.cpl = 0) (hstep : fineStep img s e = some t) :
    (∃ n, e = .irq n) ∨ ∃ σ, e = .exec σ := by
  have h3 : s.cpu.cpl ≠ 3 := by rw [hcpl]; decide
  cases e with
  | irq n => exact .inl ⟨n, rfl⟩
  | exec σ => exact .inr ⟨σ, rfl⟩
  | user u => simp only [fineStep, user, if_pos h3] at hstep; cases hstep
  | int n => simp only [fineStep, raiseInt, if_pos h3] at hstep; cases hstep
  | fault v err cr2 =>
    simp only [fineStep, raiseFault, if_pos (.inl h3 : s.cpu.cpl ≠ 3 ∨ 20 ≤ v)] at hstep
    cases hstep
  | portOut port bs => exact absurd (cpl_eq_three hstep).1 h3
  | portIn port width value => exact absurd (cpl_eq_three hstep).1 h3

theorem Launching.settles_step {base : Word} {i : Fin 2} {j : Nat}
    (h : Launching img base i j s) (hj : j ≤ 10) (htick : e ≠ .irq 0)
    (hstep : fineStep img s e = some t) : Settles img (AtRest img) t := by
  rcases fineStep_of_cpl h.cpl hstep with ⟨n, rfl⟩ | ⟨σ, rfl⟩
  · have hn : n ≠ 0 := fun h0 => htick (congrArg FineEvent.irq h0)
    exact (h.settles_irq hn hstep).mono fun u hu => .inr ⟨base, i, j, hj, hu⟩
  · refine .done ?_
    rcases Nat.lt_or_eq_of_le hj with hlt | rfl
    · exact .inr ⟨base, i, j + 1, hlt, h.exec hlt hstep⟩
    · exact .inl ⟨some i, h.iret hstep⟩

/-! ## Runs -/

/-- Unless the timer interrupts a launch, an event in a handler or outside of one leads
to such a state again. -/
theorem Settles.step (h : Settles img (AtRest img) s) (hspare : FineSparesPics e)
    (htick : e = .irq 0 → ¬ InLaunch img s) (hstep : fineStep img s e = some t) :
    Settles img (AtRest img) t := by
  cases h with
  | next hcpl hwait hsave hnext =>
    rcases fineStep_of_cpl hcpl hstep with ⟨n, rfl⟩ | ⟨σ, rfl⟩
    · simp only [fineStep, irq, hwait, Bool.not_false, if_true] at hstep
      cases hstep
    · exact hnext σ t hstep
  | done h =>
    rcases h with ⟨cur, hinv⟩ | ⟨base, i, j, hj, hlaunch⟩
    · exact hinv.settles_step hspare hstep
    · exact hlaunch.settles_step hj (fun he => htick he (hlaunch.inLaunch hj)) hstep

/-- The timer's request is never accepted while a task is being started. -/
def LaunchesInPeace (img : Image) (s : Machine) (es : List FineEvent) : Prop :=
  ∀ es₁ es₂ u, es = es₁ ++ .irq 0 :: es₂ → Lts.run (fineStep img) s es₁ = some u →
    ¬ InLaunch img u

theorem Settles.run {es : List FineEvent} (h : Settles img (AtRest img) s)
    (hspare : ∀ e ∈ es, FineSparesPics e) (hpeace : LaunchesInPeace img s es)
    (hrun : Lts.run (fineStep img) s es = some t) : Settles img (AtRest img) t := by
  induction es generalizing s with
  | nil => exact (Lts.run_nil.mp hrun) ▸ h
  | cons e es ih =>
    obtain ⟨u, hstep, hrest⟩ := Lts.run_cons.mp hrun
    have hu := h.step (hspare e (List.mem_cons_self ..))
      (fun he => hpeace [] es s (he ▸ rfl) (Lts.run_nil.mpr rfl)) hstep
    refine ih hu (fun e' he' => hspare e' (List.mem_cons_of_mem _ he')) ?_ hrest
    intro es₁ es₂ v hes hv
    exact hpeace (e :: es₁) es₂ v (congrArg (e :: ·) hes) (Lts.run_cons.mpr ⟨u, hstep, hv⟩)

/-! ## A tick in a launch -/

section Tick

variable {base : Word} {i : Fin 2} {j : Nat} (h : Launching img base i j s)

include h

theorem Launching.interrupt_clock :
    (s.withPics (servicing s.pics 0)).interrupt 32 none
      = some ((s.withPics (servicing s.pics 0)).entered (img.addr ⟨.clockInterruptIsr, 0⟩) none) :=
  interrupt_eq_of_sp (h.kernel.withPics (servicing s.pics 0)) h.kernelSp h.cr3_mem 32 none

/-- The tick enters the clock handler when line 0 need not wait. -/
theorem Launching.irq_zero (hfree : blockedLine s.pics 0 = false)
    (hopen : s.cpu.interruptible = true) :
    s.irq 0 = some ((s.withPics (servicing s.pics 0)).entered
      (img.addr ⟨.clockInterruptIsr, 0⟩) none) := by
  simp only [irq, hopen, h.pics.accept, hfree, Bool.not_true, Bool.false_eq_true, if_false,
    Option.bind_eq_bind]
  exact h.interrupt_clock

/-- And does nothing else. -/
theorem Launching.irq_zero_eq (htick : s.irq 0 = some t) :
    t = (s.withPics (servicing s.pics 0)).entered (img.addr ⟨.clockInterruptIsr, 0⟩) none := by
  simp only [irq, Option.bind_eq_bind] at htick
  split at htick
  · cases htick
  rw [h.pics.accept] at htick
  split at htick
  · exact Option.some.inj (htick.symm.trans h.interrupt_clock)
  · cases htick

/-- At the call of the clock handler the context is that of the launch. -/
theorem Launching.ctxRegs_clockCall :
    (ctxRegs (IntCtx.load ((s.withPics (servicing s.pics 0)).clockCall img).mem
      ((s.withPics (servicing s.pics 0)).clockCall img).cpu.esp)).cs = c0Sel := by
  obtain ⟨hmem, hesp⟩ := clockCall_eq img (s.withPics (servicing s.pics 0))
  rw [hmem, hesp, ctxRegs_load_ring0 (s := s.withPics (servicing s.pics 0)) h.cpl]
  exact h.cs

theorem Launching.not_savesTask_clockCall :
    ¬ SavesTask img ((s.withPics (servicing s.pics 0)).clockCall img) := by
  intro hsaves
  have hctx := hsaves
    { cpl := cpl_c0Sel
      pc := img.pcAt_addr ⟨.clockInterruptIsr, 6⟩ (by decide)
      running := by
        change s.currentTaskIdx ≠ -1
        rw [h.currentTaskIdx]
        exact idxWord_some_ne i }
  exact absurd (h.ctxRegs_clockCall.symm.trans hctx) (by decide)

/-- And the handler copies it into the task that is being started. -/
theorem Launching.exec_clockCall : ∃ t,
    ((s.withPics (servicing s.pics 0)).clockCall img).exec img σ = some t ∧
      (t.tasks i).contextSaved = 1 ∧ (ctxRegs (t.tasks i).context).cs = c0Sel := by
  have hat : ((s.withPics (servicing s.pics 0)).clockCall img).At img ⟨.clockInterruptIsr, 6⟩ :=
    ⟨rfl, cpl_c0Sel⟩
  have husable : s.clockUsable = true := by
    refine (clockUsable_iff h.currentTaskIdx).mpr ⟨?_, fun _ => ?_⟩
    · rw [dataUsable, h.data.1, h.kernel.gdt, dataUsable_d3Sel]
    · rw [h.data.2, h.kernel.gdt, dataUsable_d3Sel]
  have hmap := stackMapped_switched_of_sp (s := s.withPics (servicing s.pics 0)) σ
    (h.kernel.withPics _) h.kernelSp (some i)
  rw [← (clockCall_eq img (s.withPics (servicing s.pics 0))).2] at hmap
  have hcall := callC_clock img σ (s := (s.withPics (servicing s.pics 0)).clockCall img)
    ⟨.clockInterruptIsr, 6⟩ (some i) rfl husable h.currentTaskIdx
    (by exact h.kernel.gdt ▸ dataOk_d3Sel img.tss 0) hmap
  refine ⟨_, (exec_at hat rfl).trans hcall, ?_⟩
  -- the next task goes on or starts: the context has been copied before that
  have htasks (u : Machine) (hu : u.tasks = savedTasks s.tasks (some i)
      (IntCtx.load ((s.withPics (servicing s.pics 0)).clockCall img).mem
        ((s.withPics (servicing s.pics 0)).clockCall img).cpu.esp)) :
      (u.tasks i).contextSaved = 1 ∧ (ctxRegs (u.tasks i).context).cs = c0Sel := by
    rw [hu, savedTasks_apply, if_pos rfl]
    exact ⟨rfl, h.ctxRegs_clockCall⟩
  split
  · exact htasks _ rfl
  · exact htasks _ rfl

end Tick

/-- A request that is accepted in a launch comes between two of its instructions. -/
theorem Settles.launching_of_irq (h : Settles img (AtRest img) s) (hlaunch : InLaunch img s)
    {n : Nat} (hirq : s.irq n = some t) :
    ∃ base i j, j ≤ 10 ∧ Launching img base i j s := by
  cases h with
  | next hcpl hwait hsave hnext =>
    simp only [irq, hwait, Bool.not_false, if_true] at hirq
    cases hirq
  | done h =>
    refine h.resolve_left ?_
    rintro ⟨cur, hinv⟩
    cases cur with
    | none =>
      have hm : IdleMode img s := hinv.mode
      obtain ⟨j, hpc⟩ := hlaunch.pc
      rw [hm.eip, img.pcAt_addr ⟨.idle, 0⟩ (by decide)] at hpc
      cases hpc
    | some i =>
      have hm : UserMode s i := hinv.mode
      have hcpl := hlaunch.cpl
      rw [hm.cpl] at hcpl
      cases hcpl

/-! ## Runs that save tasks only -/

/-- In every state of the run, and however the kernel goes on from there undisturbed,
no context of level 0 is saved. -/
def SavesTasksOnly (img : Image) (s : Machine) (es : List FineEvent) : Prop :=
  ∀ es₁ u n σ t, es₁ <+: es → Lts.run (fineStep img) s es₁ = some u →
    Lts.run (fineStep img) u (List.replicate n (.exec σ)) = some t → SavesTask img t

theorem LaunchesInPeace.of_prefix {es es₁ : List FineEvent} (h : LaunchesInPeace img s es)
    (hes : es₁ <+: es) : LaunchesInPeace img s es₁ := by
  obtain ⟨rest, rfl⟩ := hes
  intro as bs u hsplit
  exact h as (bs ++ rest) u (by rw [hsplit, List.append_assoc, List.cons_append])

/-- No tick, no tick in a launch. -/
theorem launchesInPeace_exec {n : Nat} :
    LaunchesInPeace img s (List.replicate n (.exec σ)) := by
  intro as bs u hsplit
  have hmem : FineEvent.irq 0 ∈ List.replicate n (.exec σ) := by
    rw [hsplit]
    exact List.mem_append_right as (List.mem_cons_self ..)
  cases List.eq_of_mem_replicate hmem

theorem Settles.savesTasksOnly {es : List FineEvent} (h : Settles img (AtRest img) s)
    (hspare : ∀ e ∈ es, FineSparesPics e) (hpeace : LaunchesInPeace img s es) :
    SavesTasksOnly img s es := by
  intro es₁ u n σ t hes hrun hexec
  have hu := h.run (fun e he => hspare e (hes.subset he)) (hpeace.of_prefix hes) hrun
  have hspare' : ∀ e ∈ List.replicate n (FineEvent.exec σ), FineSparesPics e := by
    intro e he σ' e' he'
    rw [List.eq_of_mem_replicate he] at he'
    cases he'
  exact (hu.run hspare' launchesInPeace_exec hexec).savesTask

theorem SavesTasksOnly.launchesInPeace {es : List FineEvent} (h : Settles img (AtRest img) s)
    (hspare : ∀ e ∈ es, FineSparesPics e) (hrun : Lts.run (fineStep img) s es = some t)
    (hsaves : SavesTasksOnly img s es) : LaunchesInPeace img s es := by
  induction es generalizing s with
  | nil => exact fun as bs u hsplit => absurd hsplit (by simp)
  | cons e es ih =>
    obtain ⟨u, hstep, hrest⟩ := Lts.run_cons.mp hrun
    have htick : e = .irq 0 → ¬ InLaunch img s := by
      rintro rfl hlaunch
      obtain ⟨base, i, j, -, hlaunching⟩ := h.launching_of_irq hlaunch hstep
      obtain rfl := hlaunching.irq_zero_eq hstep
      exact hlaunching.not_savesTask_clockCall (hsaves [.irq 0] _ 6 sampleScratch _ ⟨es, rfl⟩
        (Lts.run_cons.mpr ⟨_, hstep, Lts.run_nil.mpr rfl⟩) straight_clockCall.run)
    have hu := h.step (hspare e (List.mem_cons_self ..)) htick hstep
    have hpeace := ih hu (fun e' he' => hspare e' (List.mem_cons_of_mem _ he')) hrest
      fun es₁ v n σ w hes hv => hsaves (e :: es₁) v n σ w (List.cons_prefix_cons.mpr ⟨rfl, hes⟩)
        (Lts.run_cons.mpr ⟨u, hstep, hv⟩)
    intro as bs v hsplit hv
    cases as with
    | nil =>
      obtain ⟨rfl, rfl⟩ := List.cons_eq_cons.mp hsplit
      exact Lts.run_nil.mp hv ▸ htick rfl
    | cons a as =>
      obtain ⟨rfl, hrest'⟩ := List.cons_eq_cons.mp hsplit
      obtain ⟨u', hstep', hv⟩ := Lts.run_cons.mp hv
      obtain rfl := Option.some.inj (hstep.symm.trans hstep')
      exact hpeace as bs v hrest' hv

/-- The clock handler saves contexts of level 3 only in just those runs in which no tick
interrupts the start of a task. -/
theorem savesTasksOnly_iff {es : List FineEvent} (hboot : Booted img s)
    (hspare : ∀ e ∈ es, FineSparesPics e) (hrun : Lts.run (fineStep img) s es = some t) :
    SavesTasksOnly img s es ↔ LaunchesInPeace img s es := by
  have hs : Settles img (AtRest img) s := .done (.inl ⟨none, hboot.inv⟩)
  exact ⟨fun hsaves => hsaves.launchesInPeace hs hspare hrun,
    fun hpeace => hs.savesTasksOnly hspare hpeace⟩

/-- The first tick of the sample machine interrupts its loop, and nothing is saved. -/
theorem savesTasksOnly_sample :
    SavesTasksOnly sampleImage sample (.irq 0 :: List.replicate 6 (.exec sampleScratch)) := by
  have hinv := booted_sample.inv
  have hm : IdleMode sampleImage sample := hinv.mode
  have hrun : Lts.run (fineStep sampleImage) sample
      (.irq 0 :: List.replicate 6 (.exec sampleScratch)) = some _ :=
    Lts.run_cons.mpr ⟨_, irq_zero hinv rfl, straight_clockCall.run⟩
  have hspare : ∀ e ∈ FineEvent.irq 0 :: List.replicate 6 (.exec sampleScratch),
      FineSparesPics e := by
    intro e he σ e' he'
    rcases List.mem_cons.mp he with rfl | hexec
    · obtain rfl := Option.some.inj he'
      trivial
    · rw [List.eq_of_mem_replicate hexec] at he'
      cases he'
  refine (savesTasksOnly_iff booted_sample hspare hrun).mpr ?_
  intro as bs u hsplit hu hlaunch
  cases as with
  | nil =>
    obtain ⟨j, hpc⟩ := hlaunch.pc
    obtain rfl := Lts.run_nil.mp hu
    rw [hm.eip, sampleImage.pcAt_addr ⟨.idle, 0⟩ (by decide)] at hpc
    cases hpc
  | cons a as =>
    obtain ⟨rfl, hrest⟩ := List.cons_eq_cons.mp hsplit
    have hmem : FineEvent.irq 0 ∈ List.replicate 6 (.exec sampleScratch) := by
      rw [hrest]
      exact List.mem_append_right as (List.mem_cons_self ..)
    cases List.eq_of_mem_replicate hmem

/-! ## The first tick and the second -/

/-- Two ticks, the second one just before the `iret` that starts task 0. -/
def launchTick (σ : Scratch) : List FineEvent :=
  .irq 0 :: (List.replicate 17 (.exec σ) ++ .irq 0 :: List.replicate 6 (.exec σ))

theorem Launching.run_exec {base : Word} {i : Fin 2} {j n : Nat} (h : Launching img base i j s)
    (hn : j + n ≤ 10)
    (hrun : Lts.run (fineStep img) s (List.replicate n (.exec σ)) = some t) :
    Launching img base i (j + n) t := by
  induction n generalizing s j with
  | zero => exact (Lts.run_nil.mp hrun) ▸ h
  | succ n ih =>
    rw [List.replicate_succ] at hrun
    obtain ⟨u, hstep, hrest⟩ := Lts.run_cons.mp hrun
    have hu := ih (h.exec (by omega) hstep) (by omega) hrest
    rwa [Nat.add_assoc, Nat.add_comm 1 n] at hu

/-- The call of the clock handler when the next task has never run. -/
theorem exec_launch (hk : Kernel img s) (hm : Mode img s cur) (husable : s.clockUsable = true)
    (hnew : ¬ (s.tasks (nextOf cur)).contextSaved = 1) :
    (s.clockCall img).exec img σ
      = some (enterLaunch img σ ((s.clockCall img).switched cur (s.clockCall img).cpu.esp)
          (s.tasks (nextOf cur)).stack (s.tasks (nextOf cur)).function) := by
  have hat : (s.clockCall img).At img ⟨.clockInterruptIsr, 6⟩ := ⟨rfl, cpl_c0Sel⟩
  have hmap := stackMapped_switched σ hk hm
  rw [← (clockCall_eq img s).2] at hmap
  have hcall := callC_clock img σ (s := s.clockCall img) ⟨.clockInterruptIsr, 6⟩ cur rfl husable
    hm.currentTaskIdx (by exact hk.gdt ▸ dataOk_d3Sel img.tss 0) hmap
  refine (exec_at hat rfl).trans (hcall.trans (congrArg some ?_))
  exact if_neg hnew

theorem Launching.interruptible {base : Word} {i : Fin 2} {j : Nat}
    (h : Launching img base i j s) (hj : j ≠ 0) (hshadow : s.cpu.shadow = false) :
    s.cpu.interruptible = true := by
  have hflags := h.flags.trans (if_neg hj)
  have hintr : s.cpu.eflags &&& Eflags.intr = Eflags.intr :=
    (Eflags.and_of_and hflags (by decide)).trans (by decide)
  exact Cpu.interruptible_eq (Cpu.intrFlag_eq_true hintr) hshadow

/-- Nothing keeps a tick from coming just before the `iret`, once the end of interrupt has
been sent. -/
theorem Launching.exists_tick {base : Word} {i : Fin 2} (h : Launching img base i 0 s)
    (hfree : blockedLine (s.pics.out pic1 picEoi) 0 = false) :
    ∃ t u, Lts.run (fineStep img) s
      (List.replicate 10 (.exec σ) ++ .irq 0 :: List.replicate 6 (.exec σ)) = some t ∧
        ¬ SavesTask img t ∧ t.exec img σ = some u ∧ (u.tasks i).contextSaved = 1 ∧
          (ctxRegs (u.tasks i).context).cs = c0Sel := by
  have hready := (straight_launch h.pcAt).run (σ := σ)
  have hlast : Launching img base i 10 (s.launchReady img) :=
    h.run_exec (Nat.le_refl (0 + 10)) hready
  have htick := hlast.irq_zero hfree (hlast.interruptible (by decide) rfl)
  obtain ⟨u, hcopies⟩ := hlast.exec_clockCall (σ := σ)
  exact ⟨_, u, Lts.run_append.mpr ⟨_, hready, Lts.run_cons.mpr ⟨_, htick, straight_clockCall.run⟩⟩,
    hlast.not_savesTask_clockCall, hcopies⟩

theorem Booted.clockUsable (hboot : Booted img s) : s.clockUsable = true := by
  obtain ⟨s₀, hentered, hstart⟩ := hboot
  rw [start_eq hentered] at hstart
  obtain rfl := Option.some.inj hstart
  simp [Machine.clockUsable, Machine.dataUsable, configured]

/-- However the kernel is started, a second tick can come while the first task is, and
the context of the kernel becomes that of the task. -/
theorem Booted.exists_launchTick (hboot : Booted img s) :
    ∃ t u, Lts.run (fineStep img) s (launchTick σ) = some t ∧ ¬ SavesTask img t ∧
      t.exec img σ = some u ∧ (u.tasks 0).contextSaved = 1 ∧
        (ctxRegs (u.tasks 0).context).cs = c0Sel := by
  have hinv := hboot.inv
  have hm : IdleMode img s := hinv.mode
  have hfree : blockedLine s.pics 0 = false := by rw [hboot.pics]; rfl
  have hnew : ¬ (s.tasks (nextOf none)).contextSaved = 1 := by rw [hm.unsaved]; decide
  have hk' := hinv.kernel.withPics (servicing s.pics 0)
  have hm' := hinv.mode.withPics (servicing s.pics 0)
  have hpics : Serviceable (servicing s.pics 0) := hinv.pics.servicing
  have hlaunch := Launching.of_enterLaunch (σ := σ) hk' hm' hpics
    (s.tasks (nextOf none)).stack (s.tasks (nextOf none)).function
  have heoi : (servicing s.pics 0).out pic1 picEoi = s.pics :=
    hinv.pics.eoi_master (by decide) hfree
  obtain ⟨t, u, hrun, hbad⟩ := hlaunch.exists_tick (σ := σ) (by rw [← heoi] at hfree; exact hfree)
  refine ⟨t, u, Lts.run_cons.mpr ⟨_, irq_zero hinv hfree, ?_⟩, hbad⟩
  -- six instructions up to the call, the call, and ten of the launch
  have hseventeen : List.replicate 17 (FineEvent.exec σ)
      = List.replicate 6 (.exec σ) ++ .exec σ :: List.replicate 10 (.exec σ) := rfl
  rw [hseventeen, List.append_assoc]
  refine Lts.run_append.mpr ⟨_, straight_clockCall.run, ?_⟩
  exact Lts.run_cons.mpr ⟨_, exec_launch hk' hm' hboot.clockUsable hnew, hrun⟩

/-- Of the sample machine, for instance. -/
theorem not_savesTask_sample : Booted sampleImage sample ∧ ∃ t u,
    Lts.run (fineStep sampleImage) sample (launchTick sampleScratch) = some t ∧
      ¬ SavesTask sampleImage t ∧ t.exec sampleImage sampleScratch = some u ∧
        (u.tasks 0).contextSaved = 1 ∧ (ctxRegs (u.tasks 0).context).cs = c0Sel :=
  ⟨booted_sample, booted_sample.exists_launchTick⟩

end Machine

end SecOS
