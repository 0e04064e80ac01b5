-- SUMMARY: What the counter printed by task 2 means on the machine: the increments task 1 has stored, unless task 2 comes first.
import SecOS.Exam.TaskCode

/-!
# The printed counter

Nothing clears the shared page before the first tick. If task 2 gets as far as its system
call before task 1 has stored its zero, it prints whatever the page held at boot. Otherwise,
and under every schedule, it prints the number of increments.
-/

namespace SecOS

open X86

namespace Machine

variable {img : Image} {code : ∀ i, Code img i} {σ : Scratch} {s s' : Machine} {i : Fin 2}
variable {cur : Option (Fin 2)} {t t' : Traced} {a : Tasks} {e : TaskEvent}
variable {b : TimeSharing.State (Fin 2) Regs Mem Mem}

/-! ## Nobody gets stuck -/

/-- No task touches the interrupt controllers or the data segments. -/
structure Ready (s : Machine) : Prop where
  pics : s.pics = picsReady
  ds : s.cpu.ds = d3Sel
  es : s.cpu.es = d3Sel
  fs : s.cpu.fs = d3Sel
  gs : s.cpu.gs = d3Sel

theorem Booted.ready (h : Booted img s) : Ready s := by
  obtain ⟨s₀, hentered, hstart⟩ := h
  rw [start_eq hentered] at hstart
  obtain rfl := Option.some.inj hstart
  exact ⟨rfl, rfl, rfl, rfl, rfl⟩

theorem Ready.dataUsable (hr : Ready s) (hk : Kernel img s) : s.dataUsable = true := by
  unfold Machine.dataUsable
  rw [hr.ds, hk.gdt]
  rfl

theorem Ready.clockUsable (hr : Ready s) (hinv : Inv img s cur) : s.clockUsable = true := by
  refine (clockUsable_iff hinv.mode.currentTaskIdx).mpr ⟨hr.dataUsable hinv.kernel, fun _ => ?_⟩
  rw [hr.es, hinv.kernel.gdt]
  rfl

/-- A tick can always come. -/
theorem Ready.tick (hr : Ready s) (hinv : Inv img s cur) :
    ∃ s', step img s (.irq 0 σ) = some s' := by
  have hfree : blockedLine s.pics 0 = false := by
    rw [hr.pics]
    rfl
  exact ⟨_, (step_irq_zero hinv).trans (if_pos ⟨hfree, hr.clockUsable hinv⟩)⟩

/-- An instruction whose stores the task may make is executed. -/
theorem exists_step_user (hinv : Inv img s (some i)) {u : UserStep} (hflat : FlatSegs u)
    (hstores : ∀ st ∈ u.stores, (userMap i st.1).isSome = true) :
    ∃ s', step img s (.user u) = some s' := by
  have hm : UserMode s i := hinv.mode
  obtain ⟨m, hmem⟩ := exists_userStores hinv.kernel.tables hstores
  rw [← hm.cr3] at hmem
  have hdata : ∀ sel ∈ [u.ds, u.es, u.fs, u.gs], (examGdt img.tss).dataOk 3 sel = true := by
    intro sel hsel
    rw [hflat.data sel hsel]
    exact dataOk_d3Sel _ 3
  exact ⟨_, step_user hinv hflat.cs hflat.ss hdata hmem⟩

theorem Performs.isSome {p : Point} {r : Regs} {u : UserStep} (h : Performs i p r (.instr u)) :
    ∀ st ∈ u.stores, (userMap i st.1).isSome = true := by
  obtain ⟨-, -, hstores⟩ := h
  have hmap (k : Nat) (hk : k < 4) := congrArg Option.isSome (userMap_counterOf i hk)
  have h0 := hmap 0 (by decide)
  rw [BitVec.add_zero] at h0
  rw [hstores]
  cases p.stores with
  | none => simp
  | some v =>
    simp only [Option.elim_some, wordStores, List.forall_mem_cons]
    exact ⟨h0, hmap 1 (by decide), hmap 2 (by decide), hmap 3 (by decide),
      fun _ hst => by cases hst⟩

/-- What the task that runs does next: an instruction whose stores it may make, or the
system call with its pointer. -/
theorem Runs.next (h : Runs code t a b) (hcur : b.current = some i) {act : Action}
    (hact : (code i).program (regsOf t.machine.cpu) (viewOf i (joined (b.own i) b.shared)) = act) :
    (∃ u, act = .instr u ∧ FlatSegs u ∧ ∀ st ∈ u.stores, (userMap i st.1).isSome = true) ∨
      act = .int 0x80 ∧ t.machine.cpu.eax = counterOf i := by
  have hat := h.started i _ (h.shares.refines.2.running i hcur)
  obtain ⟨p, n, htodo⟩ : ∃ p n, a.todo i = (p, n) := ⟨_, _, rfl⟩
  rw [htodo] at hat
  cases n with
  | succ n =>
    obtain ⟨⟨u, hu, hflat, hprivate⟩, -⟩ := (code i).own b.shared hat
    exact .inl ⟨u, hact.symm.trans hu, hflat, hprivate.isSome⟩
  | zero =>
    obtain ⟨hperforms, -⟩ := (code i).access b.shared hat
    rw [hact] at hperforms
    cases act with
    | instr u => exact .inl ⟨u, rfl, hperforms.2.1, hperforms.isSome⟩
    | int n =>
      obtain ⟨-, rfl, heax⟩ := hperforms
      exact .inr ⟨rfl, heax⟩

/-- The task that runs can always execute its next instruction. -/
theorem Ready.instr (hr : Ready t.machine) (h : Runs code t a b) (hcur : b.current = some i) :
    ∃ s', taskStep code t.machine (.instr σ) = some s' := by
  have hinv := h.shares.refines.1
  rw [hcur] at hinv
  have hm : UserMode t.machine i := hinv.mode
  rw [h.taskStep hcur rfl]
  obtain ⟨u, hact, hflat, hstores⟩ | ⟨hact, heax⟩ := h.next hcur rfl
  · rw [hact]
    exact exists_step_user hinv hflat hstores
  · have hread := syscallRead_counterOf (σ := σ) hinv.kernel.afterInt hm.afterInt heax
    have hcall := step_syscall (σ := σ) hinv
    rw [if_pos (hr.dataUsable hinv.kernel), hread, Option.map_some] at hcall
    rw [hact]
    exact ⟨_, hcall⟩

/-- The events of the tasks, and what they leave of their data segments. -/
inductive Harmless : Event → Prop
  | tick (σ : Scratch) : Harmless (.irq 0 σ)
  | user {u : UserStep} (h : FlatSegs u) : Harmless (.user u)
  | syscall (σ : Scratch) : Harmless (.int 0x80 σ)

theorem Ready.step (hr : Ready s) (hinv : Inv img s cur) {ev : Event} (hev : Harmless ev)
    (hstep : step img s ev = some s') : Ready s' := by
  have houter : s.gdt.outerData 3 d3Sel = d3Sel := by rw [hinv.kernel.gdt]; rfl
  have heff := effect_of_step hinv hstep
  have hpics : s'.pics = picsReady := by
    refine (heff.pics_eq hinv (hr.pics.symm ▸ quiet_picsReady) ?_).trans hr.pics
    rintro port bs σ rfl
    cases hev
  cases hev with
  | tick σ =>
    cases heff with
    | clockIrq => exact ⟨hpics, houter, houter, houter, houter⟩
    | device hn => exact absurd hn.1 (Nat.lt_irrefl 0)
  | @user u hflat =>
    cases heff with
    | user hcur hcs hss hmem =>
      exact ⟨hpics, hflat.data _ (by simp [userCpu]), hflat.data _ (by simp [userCpu]),
        hflat.data _ (by simp [userCpu]), hflat.data _ (by simp [userCpu])⟩
  | syscall σ =>
    cases heff with
    | syscall hcur =>
      refine ⟨hpics, ?_, ?_, ?_, ?_⟩
      · exact (congrArg (s.gdt.outerData 3) hr.ds).trans houter
      · exact (congrArg (s.gdt.outerData 3) hr.es).trans houter
      · exact (congrArg (s.gdt.outerData 3) hr.fs).trans houter
      · exact (congrArg (s.gdt.outerData 3) hr.gs).trans houter

/-- What the task that runs does next is harmless. -/
theorem Runs.harmless (h : Runs code t a b) (hcur : b.current = some i) :
    Harmless (((code i).program (regsOf t.machine.cpu)
      (viewOf i (joined (b.own i) b.shared))).event σ) := by
  obtain ⟨u, hact, hflat, -⟩ | ⟨hact, -⟩ := h.next hcur rfl
  · rw [hact]
    exact .user hflat
  · rw [hact]
    exact .syscall σ

/-! ## Every schedule -/

/-- The tasks are under way, and one of them runs. -/
structure Live (code : ∀ i, Code img i) (t : Traced) : Prop where
  runs : ∃ a b, Runs code t a b
  ready : Ready t.machine
  cpl : t.machine.cpu.cpl = 3

theorem step_of_record (hstep : taskStep code t.machine e = some s') :
    t.step code e = some (t.record code e s') := by
  unfold Traced.step
  rw [hstep]
  rfl

/-- Once a task runs, one always does. -/
theorem cpl_of_harmless (hinv : Inv img s (some i)) {ev : Event} (hev : Harmless ev)
    (hstep : step img s ev = some s') : s'.cpu.cpl = 3 := by
  have hspare : SparesPics ev := by cases hev <;> trivial
  have hm := ((effect_of_step hinv hstep).inv hinv hspare).mode
  unfold taskAfter at hm
  split at hm
  · exact UserMode.cpl hm
  · exact UserMode.cpl hm

theorem Live.step (h : Live code t) (e : TaskEvent) :
    ∃ t', t.step code e = some t' ∧ Live code t' := by
  obtain ⟨a, b, hruns⟩ := h.runs
  have hinv := h.ready
  obtain ⟨i, hcur, -⟩ := hruns.shares.refines.1.mode.task_of_cpl h.cpl
  have hinv := hruns.shares.refines.1
  rw [hcur] at hinv
  obtain ⟨ev, hev, s', hs', hstep⟩ : ∃ ev, Harmless ev ∧ ∃ s', taskStep code t.machine e = some s' ∧
      SecOS.step img t.machine ev = some s' := by
    cases e with
    | tick σ =>
      obtain ⟨s', hs'⟩ := h.ready.tick (σ := σ) hinv
      exact ⟨_, .tick σ, s', hs', hs'⟩
    | instr σ =>
      obtain ⟨s', hs'⟩ := h.ready.instr (σ := σ) hruns hcur
      exact ⟨_, hruns.harmless (σ := σ) hcur, s', hs', (hruns.taskStep hcur rfl).symm.trans hs'⟩
  have ht' := step_of_record hs'
  obtain ⟨d, a', -, -, b', hruns'⟩ := simulates_tasks code t a e _ ⟨b, hruns⟩ trivial ht'
  exact ⟨_, ht', ⟨a', b', hruns'⟩, h.ready.step hinv hev hstep, cpl_of_harmless hinv hev hstep⟩

theorem Live.run (h : Live code t) (es : List TaskEvent) :
    ∃ t', Lts.run (Traced.step code) t es = some t' := by
  induction es generalizing t with
  | nil => exact ⟨t, Lts.run_nil.mpr rfl⟩
  | cons e es ih =>
    obtain ⟨u, hstep, hu⟩ := h.step e
    obtain ⟨t', hrun⟩ := ih hu
    exact ⟨t', Lts.run_cons.mpr ⟨u, hstep, hrun⟩⟩

/-- The first tick after the boot. -/
theorem Booted.firstTick (code : ∀ i, Code img i) (σ : Scratch) (hboot : Booted img s) :
    ∃ t, (Traced.start s).step code (.tick σ) = some t ∧ Live code t := by
  obtain ⟨s', hs'⟩ := hboot.ready.tick (σ := σ) hboot.inv
  have ht : (Traced.start s).step code (.tick σ) = some _ := step_of_record hs'
  obtain ⟨b, hruns⟩ := hboot.performing code
  obtain ⟨d, a', -, -, b', hruns'⟩ := simulates_tasks code _ _ _ _ ⟨b, hruns⟩ trivial ht
  refine ⟨_, ht, ⟨a', b', hruns'⟩, hboot.ready.step hboot.inv (.tick σ) hs', ?_⟩
  have hm := ((effect_of_step hboot.inv hs').inv hboot.inv trivial).mode
  exact UserMode.cpl hm

theorem ticks_of_schedules {es : List TaskEvent} {ds : List Turn}
    (h : List.Forall₂ Schedules es ds) : ds.map Turn.isTick = es.map TaskEvent.isTick := by
  induction h with
  | nil => rfl
  | cons hd _ ih => rw [List.map_cons, List.map_cons, hd, ih]

/-- A run of the machine with its tasks counts as the functions do. -/
theorem counts_iff_of_run {es : List TaskEvent} (hboot : Booted img s)
    (hrun : Lts.run (Traced.step code) (.start s) (.tick σ :: es) = some t) :
    Tasks.Counts t.stored t.printed ↔ s.mem.read32 counterPa = 0 ∨
      Tasks.overtakes 0 (fun i => (code i).lead) (es.map TaskEvent.isTick) = false := by
  obtain ⟨ds, a, hlabels, hds, b, hruns⟩ :=
    (simulates_tasks code).run (hboot.performing code) (fun _ _ => trivial) hrun
  obtain ⟨d, ds, hd, hrest, rfl⟩ := List.forall₂_cons_left_iff.mp hlabels
  cases d with
  | instr n => cases hd
  | tick =>
    rw [hruns.stored, hruns.printed, Tasks.counts_iff_of_run hds, ticks_of_schedules hrest]

/-- From the boot, under every schedule of ticks, the tasks run, and the printed values
count the increments exactly when the shared word was zero at boot or task 2 does not get
as far as its system call before task 1 stores its zero. -/
theorem counts_iff_of_schedule (code : ∀ i, Code img i) (σ : Scratch) (es : List TaskEvent)
    (hboot : Booted img s) :
    ∃ t, Lts.run (Traced.step code) (.start s) (.tick σ :: es) = some t ∧
      (Tasks.Counts t.stored t.printed ↔ s.mem.read32 counterPa = 0 ∨
        Tasks.overtakes 0 (fun i => (code i).lead) (es.map TaskEvent.isTick) = false) := by
  obtain ⟨u, hfirst, hlive⟩ := hboot.firstTick code σ
  obtain ⟨t, hrun⟩ := hlive.run es
  have hrun' := Lts.run_cons.mpr ⟨u, hfirst, hrun⟩
  exact ⟨t, hrun', counts_iff_of_run hboot hrun'⟩

/-- After the first tick: `n` instructions of task 1, and then task 2 up to its system call. -/
def callAfter (n : Nat) : List TaskEvent :=
  List.replicate n (.instr sampleScratch) ++
    .tick sampleScratch :: List.replicate 11 (.instr sampleScratch)

/-- Task 1 gets as far as its second increment before task 2 prints. -/
theorem counts_sample :
    ∃ t, Lts.run (Traced.step sampleCode) (.start sample)
        (.tick sampleScratch :: callAfter 18) = some t ∧
      (Tasks.Counts t.stored t.printed ↔ sample.mem.read32 counterPa = 0 ∨
        Tasks.overtakes 0 (fun i => (sampleCode i).lead)
          ((callAfter 18).map TaskEvent.isTick) = false) :=
  counts_iff_of_schedule sampleCode sampleScratch _ booted_sample

/-! ## A run in which task 2 comes first -/

/-- The shared page is not clear when the machine is started. -/
def dirtyBoot : Machine := { sampleBoot with mem := sampleBoot.mem.write32 counterPa 7 }

theorem entered_dirtyBoot : Entered dirtyBoot where
  eflags := rfl
  esp_lo := by decide
  esp_hi := by decide
  currentTaskIdx := rfl
  tss := rfl

def dirty : Machine := dirtyBoot.configured sampleImage

theorem booted_dirty : Booted sampleImage dirty :=
  ⟨_, entered_dirtyBoot, start_eq entered_dirtyBoot⟩

/-- The configuration does not clear the shared word. -/
theorem counter_dirty : dirty.mem.read32 counterPa = 7 := by
  have hsame : dirty.mem.read32 counterPa = dirtyBoot.mem.read32 counterPa := by
    refine Mem.read32_congr fun b hb => configPgdsTables_outside _ _ ?_
    simp only [Within, tablesBase, tablesSize, counterPa] at *
    bv_omega
  rw [hsame]
  exact Mem.read32_write32 _ _ _

/-- Task 2 prints 7 when task 1 has executed one instruction, and stored nothing. -/
theorem counts_fails_dirty :
    ¬ ∀ (img : Image) (code : ∀ i, Code img i) s es t, Booted img s →
        Lts.run (Traced.step code) (.start s) es = some t →
        Tasks.Counts t.stored t.printed := by
  intro hall
  obtain ⟨u, hfirst, hlive⟩ := booted_dirty.firstTick sampleCode sampleScratch
  obtain ⟨t, hrun⟩ := hlive.run (callAfter 1)
  have hrun' := Lts.run_cons.mpr ⟨u, hfirst, hrun⟩
  have hcounts := hall sampleImage sampleCode dirty _ t booted_dirty hrun'
  rcases (counts_iff_of_run booted_dirty hrun').mp hcounts with hzero | hlate
  · rw [counter_dirty] at hzero
    exact absurd hzero (by decide)
  · exact absurd hlate (by decide)

end Machine

end SecOS
