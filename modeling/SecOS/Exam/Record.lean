-- SUMMARY: The compiled task functions on the machine, with a record of what they store and print, and that together they do what the functions say.
import SecOS.Exam.Confidentiality
import SecOS.Exam.Sharing
import SecOS.Exam.Tasks

/-!
# The tasks on the machine

The compiler's code for a task function is a program that accesses the counter as the
function says and else keeps to registers and private memory. Both of them in turn, each at
its own address of the shared page, are a run of the functions.
-/

namespace SecOS

open X86

/-! ## The shared word -/

/-- `counter` in `task1_function` and in `task2_function`. -/
def counterOf : Fin 2 → Word
  | 0 => 0x800000
  | 1 => 0x400000

/-- Physical address of the counter. -/
def counterPa : Word := 0xe00000

section Shared

variable {m m' : Mem} {v : Word} {i : Fin 2} {k : Nat} {stores : List (Word × Byte)}

theorem userMap_counterOf (i : Fin 2) (hk : k < 4) :
    userMap i (counterOf i + BitVec.ofNat 32 k) = some (counterPa + BitVec.ofNat 32 k) := by
  have hcase : k = 0 ∨ k = 1 ∨ k = 2 ∨ k = 3 := by omega
  obtain rfl | rfl : i = 0 ∨ i = 1 := by omega
  · obtain rfl | rfl | rfl | rfl := hcase <;> rfl
  · obtain rfl | rfl | rfl | rfl := hcase <;> rfl

theorem walk_counterOf (h : TablesOk m) (i : Fin 2) (hk : k < 4) :
    walk m (pgdOf i) (counterOf i + BitVec.ofNat 32 k)
      = some { pa := counterPa + BitVec.ofNat 32 k, user := true, rw := true } := by
  have hge : ¬ (counterOf i + BitVec.ofNat 32 k).toNat < kernelEnd := by
    obtain rfl | rfl : i = 0 ∨ i = 1 := by omega
    · simp only [counterOf, kernelEnd]
      bv_omega
    · simp only [counterOf, kernelEnd]
      bv_omega
  rw [walk_pgdOf h, if_neg hge, userMap_counterOf i hk]
  rfl

theorem sharedPage_counter {pa : Word} (h : Within counterPa 4 pa) : SharedPage pa := by
  simp only [Within, counterPa, SharedPage] at *
  bv_omega

/-- The four bytes of a word, as an instruction stores them. -/
def wordStores (va w : Word) : List (Word × Byte) :=
  [(va, Mem.byteOf w 0), (va + 1, Mem.byteOf w 1), (va + 2, Mem.byteOf w 2),
    (va + 3, Mem.byteOf w 3)]

theorem Mem.update_eq_blit (m : Mem) (a : Word) (b : Byte) :
    Function.update m a b = m.blit a 1 fun _ => b := by
  funext c
  by_cases hc : c = a
  · rw [hc, Function.update_self, Mem.blit_within (by simp [Within])]
  · rw [Function.update_of_ne hc, Mem.blit_not_within]
    intro hin
    simp only [Within] at hin
    exact hc (by bv_omega)

/-- A task stores a word where its addresses `va` lead to `pa`. -/
theorem poke_wordStores {va pa : Word}
    (h : ∀ k < 4, userMap i (va + BitVec.ofNat 32 k) = some (pa + BitVec.ofNat 32 k)) :
    poke i m (wordStores va v) = m.write32 pa v := by
  have h0 : userMap i va = some pa := by simpa using h 0 (by decide)
  have h1 : userMap i (va + 1) = some (pa + 1) := h 1 (by decide)
  have h2 : userMap i (va + 2) = some (pa + 2) := h 2 (by decide)
  have h3 : userMap i (va + 3) = some (pa + 3) := h 3 (by decide)
  simp only [wordStores, poke_cons, h0, h1, h2, h3, Mem.update_eq_blit, Mem.write32_eq_blit]
  rfl

/-- Stores to private memory. -/
def PrivateStores (i : Fin 2) (stores : List (Word × Byte)) : Prop :=
  ∀ st ∈ stores, ∃ pa, userMap i st.1 = some pa ∧ Private i pa

/-- They do not show in the shared page. -/
theorem poke_privateStores (h : PrivateStores i stores) {pa : Word} (hpa : SharedPage pa) :
    poke i m stores pa = m pa := by
  induction stores generalizing m with
  | nil => rfl
  | cons st stores ih =>
    obtain ⟨va, b⟩ := st
    obtain ⟨q, hq, hprivate⟩ := h _ List.mem_cons_self
    rw [poke_cons, ih fun st hst => h st (List.mem_cons_of_mem _ hst)]
    simp only at hq
    rw [hq]
    refine Function.update_of_ne ?_ _ _
    rintro rfl
    exact hprivate.not_shared hpa

/-- Stores to what a task sees do not fault. -/
theorem exists_userStores (htables : TablesOk m)
    (h : ∀ st ∈ stores, (userMap i st.1).isSome = true) :
    ∃ m', Machine.userStores (pgdOf i) m stores = some m' := by
  induction stores generalizing m with
  | nil => exact ⟨m, rfl⟩
  | cons st stores ih =>
    obtain ⟨va, b⟩ := st
    obtain ⟨pa, hpa⟩ := Option.isSome_iff_exists.mp (h _ List.mem_cons_self)
    have hge : ¬ va.toNat < kernelEnd := fun hlt => by
      have hnone := userMap_of_lt (i := i) hlt
      rw [show userMap i va = some pa from hpa] at hnone
      cases hnone
    have hwalk : walk m (pgdOf i) va = some { pa, user := true, rw := true } := by
      rw [walk_pgdOf htables, if_neg hge, show userMap i va = some pa from hpa]
      rfl
    have hone : Machine.userStores (pgdOf i) m [(va, b)] = some (m.blit pa 1 fun _ => b) := by
      simp only [Machine.userStores, hwalk, Bool.and_self, if_true]
    have htables' := (Machine.userStores_spec htables hone).1
    obtain ⟨m', hm'⟩ := ih htables' fun st hst => h st (List.mem_cons_of_mem _ hst)
    refine ⟨m', ?_⟩
    simp only [Machine.userStores, hwalk, Bool.and_self, if_true, hm']

theorem PrivateStores.isSome (h : PrivateStores i stores) :
    ∀ st ∈ stores, (userMap i st.1).isSome = true := by
  intro st hst
  obtain ⟨pa, hpa, -⟩ := h st hst
  rw [hpa]
  rfl

end Shared

namespace Machine

/-! ## Code -/

/-- An instruction that leaves the segment registers as the tasks find them. -/
structure FlatSegs (u : UserStep) : Prop where
  cs : u.cs = c3Sel
  ss : u.ss = d3Sel
  data : ∀ sel ∈ [u.ds, u.es, u.fs, u.gs], sel = d3Sel

/-- The action is the access `p` of task `i`. -/
def Performs (i : Fin 2) (p : Point) (r : Regs) : Action → Prop
  | .instr u => p ≠ .print ∧ FlatSegs u ∧
      u.stores = p.stores.elim [] fun v => wordStores (counterOf i) v
  | .int n => p = .print ∧ n = 0x80 ∧ r.eax = counterOf i

/-- What the compiler makes of the function of task `i`. `At p n` is where it is `n`
instructions ahead of the access `p`, in terms of its registers and its private memory. -/
structure Code (img : Image) (i : Fin 2) where
  program : Program
  /-- The instructions before the first access. -/
  lead : Nat
  At : Point → Nat → Regs → Mem → Prop
  start : ∀ {r own}, StartsAs (examTasks img i) r → At (taskFunction i) lead r own
  /-- Up to the access it goes by its registers and its private memory alone. -/
  own : ∀ {p n r own} shared, At p (n + 1) r own →
    (∃ u, program r (viewOf i (joined own shared)) = .instr u ∧ FlatSegs u ∧
      PrivateStores i u.stores) ∧
    At p n (behaviour i program (r, own, shared)).1 (behaviour i program (r, own, shared)).2.1
  access : ∀ {p r own} shared, At p 0 r own →
    Performs i p r (program r (viewOf i (joined own shared))) ∧
    ∃ n, At (p.next (shared.read32 counterPa)) n (behaviour i program (r, own, shared)).1
      (behaviour i program (r, own, shared)).2.1

variable {img : Image} (code : ∀ i, Code img i)

def Action.event (σ : Scratch) : Action → Event
  | .instr u => .user u
  | .int n => .int n σ

/-- The task that runs, and what it does next. -/
def nextAction (s : Machine) : Option (Fin 2 × Action) :=
  (taskAt s.currentTaskIdx).map fun i => (i, (code i).program (regsOf s.cpu) (viewOf i s.mem))

end Machine

/-- A schedule says when the timer ticks. -/
inductive TaskEvent where
  | tick (σ : Scratch)
  /-- The task that runs executes its next instruction. -/
  | instr (σ : Scratch)

def TaskEvent.isTick : TaskEvent → Bool
  | tick _ => true
  | instr _ => false

namespace Machine

variable {img : Image} (code : ∀ i, Code img i)

/-- The kernel with its two tasks. -/
def taskStep (s : Machine) : TaskEvent → Option Machine
  | .tick σ => step img s (.irq 0 σ)
  | .instr σ =>
    if s.cpu.cpl = 3 then (s.nextAction code).bind fun act => step img s (act.2.event σ) else none

/-! ## Record -/

/-- A machine with a record of the stores to the counter and of what was printed. -/
structure Traced where
  machine : Machine
  stored : Nat
  printed : List Print

/-- The action stores at the counter of task `i`. -/
def storesCounter (i : Fin 2) : Action → Bool
  | .instr u => u.stores.any fun st => st.1 == counterOf i
  | .int _ => false

/-- An event that stores at the counter. -/
def counterStored (s : Machine) : TaskEvent → Bool
  | .tick _ => false
  | .instr _ =>
    match s.nextAction code with
    | some (i, act) => storesCounter i act
    | none => false

/-- The value that was printed between two states. -/
def printedBy (s s' : Machine) : Option Word :=
  match s'.console.drop s.console.length with
  | [⟨_, [.word v]⟩] => some v
  | _ => none

/-- The record after a step to `s'`. -/
def Traced.record (t : Traced) (e : TaskEvent) (s' : Machine) : Traced where
  machine := s'
  stored := if counterStored code t.machine e = true then t.stored + 1 else t.stored
  printed := t.printed ++ (printedBy t.machine s').toList.map fun v => ⟨v, t.stored⟩

def Traced.step (t : Traced) (e : TaskEvent) : Option Traced :=
  (taskStep code t.machine e).map (t.record code e)

/-- A machine of which nothing is recorded yet. -/
def Traced.start (s : Machine) : Traced := ⟨s, 0, []⟩

/-! ## What the machine does for an action -/

variable {code} {σ : Scratch} {s s' : Machine} {i : Fin 2} {prog : Program}
variable {b : TimeSharing.State (Fin 2) Regs Mem Mem}

theorem not_stackArea_counter {top pa : Word} (htop : KernelTop top) (h : Within counterPa 4 pa) :
    ¬ StackArea top pa := by
  intro harea
  have hlt := htop.stackArea_lt harea
  have hge := (sharedPage_counter h).ge
  simp only [kernelEnd] at hlt
  omega

/-- The counter is in the shared page. -/
theorem Shares.counter (h : Shares img s b) :
    s.mem.read32 counterPa = b.shared.read32 counterPa := by
  rw [h.shared]
  refine Mem.read32_congr fun pa hpa => ?_
  exact (if_pos (sharedPage_counter hpa)).symm

/-- A tick prints no number. -/
theorem printedBy_tick (h : Shares img s b) (hstep : step img s (.irq 0 σ) = some s') :
    printedBy s s' = none := by
  cases effect_of_step h.refines.1 hstep with
  | clockIrq =>
    simp only [printedBy, clockDone, withPics, List.drop_left]
    obtain hnext | hnext : nextOf b.current = 0 ∨ nextOf b.current = 1 := by omega
    · rw [hnext]
      rfl
    · rw [hnext]
      rfl
  | device hn => exact absurd hn.1 (Nat.lt_irrefl 0)

theorem printedBy_user (h : Shares img s b) {u : UserStep}
    (hstep : step img s (.user u) = some s') : printedBy s s' = none := by
  cases effect_of_step h.refines.1 hstep with
  | user hi hcs hss hmem => simp only [printedBy, List.drop_length]

/-- What the handler finds behind the pointer of a task. -/
theorem syscallRead_counterOf (hk : Kernel img s) (hm : UserMode s i)
    (heax : s.cpu.eax = counterOf i) :
    s.syscallRead img σ = some (s.mem.read32 counterPa) := by
  have htop : KernelTop (kernelStackTop i) := .inr ⟨i, rfl⟩
  have htables : TablesOk (syscallMem img σ s) := tablesOk_syscallMem (m := s.mem) hm hk.tables
  unfold syscallRead
  rw [hm.cr3, heax, readLinear_of_walk (p := counterPa) fun k hk =>
    ⟨_, walk_counterOf htables i hk, rfl⟩]
  refine congrArg some (Mem.read32_congr fun pa hpa => ?_)
  exact syscallMem_public (m := s.mem) hm (not_stackArea_counter htop hpa)

/-- The system call prints the counter. -/
theorem printedBy_syscall (h : Shares img s b) (hcur : b.current = some i)
    (heax : s.cpu.eax = counterOf i) (hstep : step img s (.int 0x80 σ) = some s') :
    printedBy s s' = some (b.shared.read32 counterPa) := by
  have hinv := h.refines.1
  rw [hcur] at hinv
  have hm : UserMode s i := hinv.mode
  have hread := syscallRead_counterOf (σ := σ) hinv.kernel.afterInt hm.afterInt heax
  cases effect_of_step hinv hstep with
  | syscall hi σ hv =>
    rw [hread] at hv
    rw [← h.counter]
    simp only [printedBy, syscallDone, afterInt, List.drop_left, syscallLine,
      ← Option.some.inj hv]

/-- The registers and the memory of the running task become what its program says. -/
theorem Shares.act (h : Shares img s b) (hcur : b.current = some i) {act : Action}
    (hact : prog (regsOf s.cpu) (viewOf i (joined (b.own i) b.shared)) = act)
    (hint : ∀ n, act = .int n → n ≠ 32) (hstep : step img s (act.event σ) = some s') :
    Shares img s'
      { current := some i
        regs := Function.update b.regs i
          (some (behaviour i prog (regsOf s.cpu, b.own i, b.shared)).1)
        own := Function.update b.own i (behaviour i prog (regsOf s.cpu, b.own i, b.shared)).2.1
        shared := (behaviour i prog (regsOf s.cpu, b.own i, b.shared)).2.2 } := by
  have hregs := h.refines.2.running i hcur
  have hspares : SparesTimer (act.event σ) := by
    cases act with
    | instr u => exact ⟨trivial, fun _ he => Event.noConfusion he⟩
    | int n =>
      refine ⟨trivial, fun σ' he => ?_⟩
      injection he with hn
      exact hint n rfl hn
  have htimer : ¬ timerEvent (act.event σ) = true := by cases act <;> exact Bool.false_ne_true
  have hown : ownStep (act.event σ) = true := by cases act <;> rfl
  have h' := h.compute hspares htimer hown hstep
  have heffect : taskEffect (act.event σ) i (regsOf s.cpu, b.own i, b.shared)
      = behaviour i prog (regsOf s.cpu, b.own i, b.shared) := by
    rw [behaviour, hact]
    cases act <;> rfl
  rw [TimeSharing.compute_of_running hcur hregs, heffect] at h'
  exact h'

/-! ## Simulation -/

/-- The functions are where the tasks are, and have done what is recorded. -/
structure Runs (code : ∀ i, Code img i) (t : Traced) (a : Tasks)
    (b : TimeSharing.State (Fin 2) Regs Mem Mem) : Prop where
  shares : Shares img t.machine b
  current : b.current = a.current
  started : ∀ i r, b.regs i = some r → (code i).At (a.todo i).1 (a.todo i).2 r (b.own i)
  unstarted : ∀ i, b.regs i = none → a.todo i = (taskFunction i, (code i).lead)
  counter : b.shared.read32 counterPa = a.counter
  stored : t.stored = a.stored
  printed : t.printed = a.printed

def Performing (code : ∀ i, Code img i) (t : Traced) (a : Tasks) : Prop := ∃ b, Runs code t a b

variable {t : Traced} {a : Tasks} {e : TaskEvent}

theorem Runs.tick (h : Runs code t a b) (hstep : step img t.machine (.irq 0 σ) = some s') :
    Performing code (t.record code (.tick σ) s') { a with current := some (nextOf a.current) } := by
  obtain ⟨start, hstart, hshares⟩ := h.shares.timer hstep
  refine ⟨_, hshares, ?_, ?_, ?_, h.counter, h.stored, ?_⟩
  · rw [← h.current]
    rfl
  · intro i r hr
    rcases RoundRobin.regs_of_tick hr with hr | ⟨hnone, rfl⟩
    · exact h.started i r hr
    · rw [h.unstarted i hnone]
      exact (code i).start (hstart i)
  · intro i hnone
    refine h.unstarted i ?_
    cases hr : b.regs i with
    | none => rfl
    | some r =>
      rw [TimeSharing.State.tick] at hnone
      rw [RoundRobin.regs_tick start hr] at hnone
      cases hnone
  · simp only [Traced.record, printedBy_tick h.shares hstep, Option.toList_none, List.map_nil,
      List.append_nil]
    exact h.printed

theorem Runs.nextAction (h : Runs code t a b) (hcur : b.current = some i) :
    t.machine.nextAction code = some (i,
      (code i).program (regsOf t.machine.cpu) (viewOf i (joined (b.own i) b.shared))) := by
  have hidx := h.shares.refines.2.currentTaskIdx
  rw [hcur] at hidx
  rw [Machine.nextAction, hidx, taskAt_idxWord, h.shares.own, h.shares.shared, viewOf_joined]
  rfl

theorem Runs.taskStep (h : Runs code t a b) (hcur : b.current = some i) {act : Action}
    (hact : (code i).program (regsOf t.machine.cpu) (viewOf i (joined (b.own i) b.shared)) = act) :
    taskStep code t.machine (.instr σ) = step img t.machine (act.event σ) := by
  have hinv := h.shares.refines.1
  rw [hcur] at hinv
  have hcpl : t.machine.cpu.cpl = 3 := UserMode.cpl hinv.mode
  rw [Machine.taskStep, if_pos hcpl, h.nextAction hcur, hact]
  rfl

variable (s') in
/-- The record after an instruction of the running task. -/
theorem Runs.stored_instr (h : Runs code t a b) (hcur : b.current = some i) {act : Action}
    (hact : (code i).program (regsOf t.machine.cpu) (viewOf i (joined (b.own i) b.shared)) = act) :
    (t.record code (.instr σ) s').stored
      = if storesCounter i act = true then t.stored + 1 else t.stored := by
  simp only [Traced.record, counterStored, h.nextAction hcur, hact]

/-- The running task has taken a step to `y`, and is `n` instructions ahead of `p`. -/
theorem Runs.update (h : Runs code t a b) (hcur : b.current = some i) {y : Regs × Mem × Mem}
    {p : Point} {n : Nat} {t' : Traced} {a' : Tasks}
    (hshares : Shares img t'.machine
      { current := some i, regs := Function.update b.regs i (some y.1)
        own := Function.update b.own i y.2.1, shared := y.2.2 })
    (hat : (code i).At p n y.1 y.2.1)
    (hcurrent : a'.current = a.current) (hself : a'.todo i = (p, n))
    (hother : ∀ j, j ≠ i → a'.todo j = a.todo j)
    (hcounter : y.2.2.read32 counterPa = a'.counter) (hstored : t'.stored = a'.stored)
    (hprinted : t'.printed = a'.printed) : Performing code t' a' := by
  refine ⟨_, hshares, ?_, ?_, ?_, hcounter, hstored, hprinted⟩
  · rw [hcurrent, ← h.current, hcur]
  · intro j r hr
    by_cases hj : j = i
    · subst hj
      simp only [Function.update_self, Option.some.injEq] at hr ⊢
      rw [hself, ← hr]
      exact hat
    · simp only [Function.update_of_ne hj] at hr ⊢
      rw [hother j hj]
      exact h.started j r hr
  · intro j hnone
    by_cases hj : j = i
    · subst hj
      simp at hnone
    · simp only [Function.update_of_ne hj] at hnone
      rw [hother j hj]
      exact h.unstarted j hnone

/-- Instructions of its own leave the counter alone. -/
theorem counter_privateStores {u : UserStep} {r : Regs} {own shared : Mem}
    (hact : prog r (viewOf i (joined own shared)) = .instr u)
    (hprivate : PrivateStores i u.stores) :
    (behaviour i prog (r, own, shared)).2.2.read32 counterPa = shared.read32 counterPa := by
  simp only [behaviour, hact, taskEffect]
  refine Mem.read32_congr fun pa hpa => ?_
  have hshared := sharedPage_counter hpa
  rw [sharedOf, if_pos hshared, poke_privateStores hprivate hshared, joined, if_pos hshared]

/-- An access stores what it should. -/
theorem counter_performs {p : Point} {r : Regs} {own shared : Mem}
    (hperforms : Performs i p r (prog r (viewOf i (joined own shared)))) :
    (behaviour i prog (r, own, shared)).2.2.read32 counterPa
      = p.stores.getD (shared.read32 counterPa) := by
  unfold behaviour
  cases hact : prog r (viewOf i (joined own shared)) with
  | int n =>
    rw [hact] at hperforms
    obtain ⟨rfl, -, -⟩ := hperforms
    rfl
  | instr u =>
    rw [hact] at hperforms
    obtain ⟨-, -, hstores⟩ := hperforms
    have hread (m : Mem) : (sharedOf m).read32 counterPa = m.read32 counterPa :=
      Mem.read32_congr fun pa hpa => if_pos (sharedPage_counter hpa)
    have hjoined : (joined own shared).read32 counterPa = shared.read32 counterPa :=
      Mem.read32_congr fun pa hpa => if_pos (sharedPage_counter hpa)
    simp only [taskEffect, hstores, hread]
    cases hp : p.stores with
    | none => exact hjoined
    | some v =>
      rw [Option.elim_some, poke_wordStores fun k hk => userMap_counterOf i hk,
        Mem.read32_write32, Option.getD_some]

theorem storesCounter_privateStores {u : UserStep} (h : PrivateStores i u.stores) :
    storesCounter i (.instr u) = false := by
  simp only [storesCounter, List.any_eq_false, beq_iff_eq]
  intro st hst hcounter
  obtain ⟨pa, hpa, hprivate⟩ := h st hst
  have hshared := userMap_counterOf i (k := 0) (by decide)
  rw [BitVec.add_zero, ← hcounter, hpa] at hshared
  exact hprivate.not_shared (Option.some.inj hshared ▸ by decide)

theorem storesCounter_performs {p : Point} {r : Regs} {act : Action} (h : Performs i p r act) :
    storesCounter i act = p.stores.isSome := by
  cases act with
  | int n =>
    obtain ⟨rfl, -, -⟩ := h
    rfl
  | instr u =>
    obtain ⟨-, -, hstores⟩ := h
    simp only [storesCounter, hstores]
    cases p.stores with
    | none => rfl
    | some v => simp [wordStores]

theorem Runs.own (h : Runs code t a b) (hcur : b.current = some i) {p : Point} {n : Nat}
    (htodo : a.todo i = (p, n + 1)) (hstep : Machine.taskStep code t.machine (.instr σ) = some s') :
    Performing code (t.record code (.instr σ) s') (a.own i p n) := by
  have hat := h.started i _ (h.shares.refines.2.running i hcur)
  rw [htodo] at hat
  obtain ⟨⟨u, hact, -, hprivate⟩, hat'⟩ := (code i).own b.shared hat
  rw [h.taskStep hcur hact] at hstep
  refine h.update hcur (h.shares.act hcur hact (fun n hn => by cases hn) hstep) hat' rfl
    Tasks.todo_own (fun j hj => Tasks.todo_own_of_ne hj) ?_ ?_ ?_
  · exact (counter_privateStores hact hprivate).trans h.counter
  · rw [h.stored_instr s' hcur hact, storesCounter_privateStores hprivate]
    exact h.stored
  · simp only [Traced.record, printedBy_user h.shares hstep, Option.toList_none, List.map_nil,
      List.append_nil]
    exact h.printed

theorem Runs.access (h : Runs code t a b) (hcur : b.current = some i) {p : Point}
    (htodo : a.todo i = (p, 0)) (hstep : Machine.taskStep code t.machine (.instr σ) = some s') :
    ∃ n, Performing code (t.record code (.instr σ) s') (a.access i p n) := by
  have hat := h.started i _ (h.shares.refines.2.running i hcur)
  rw [htodo] at hat
  obtain ⟨hperforms, n, hat'⟩ := (code i).access b.shared hat
  rw [h.counter] at hat'
  have hcounter := counter_performs hperforms
  have hstored := h.stored_instr (σ := σ) s' hcur rfl
  rw [h.taskStep hcur rfl] at hstep
  have hint : ∀ n, (code i).program (regsOf t.machine.cpu) (viewOf i (joined (b.own i) b.shared))
      = .int n → n ≠ 32 := by
    intro n hn
    rw [hn] at hperforms
    rw [hperforms.2.1]
    decide
  refine ⟨n, h.update hcur (h.shares.act hcur rfl hint hstep) hat' rfl Tasks.todo_access
    (fun j hj => Tasks.todo_access_of_ne hj) ?_ ?_ ?_⟩
  · rw [hcounter, h.counter]
    rfl
  · rw [hstored, storesCounter_performs hperforms, h.stored]
    rfl
  · simp only [Traced.record, Tasks.access, h.printed, h.stored]
    revert hperforms hstep
    cases (code i).program (regsOf t.machine.cpu) (viewOf i (joined (b.own i) b.shared)) with
    | instr u =>
      intro hstep hperforms
      rw [printedBy_user h.shares hstep, if_neg hperforms.1]
      exact List.append_nil _
    | int n =>
      intro hstep hperforms
      obtain ⟨rfl, rfl, heax⟩ := hperforms
      rw [printedBy_syscall h.shares hcur heax hstep, if_pos rfl, h.counter]
      rfl

/-- A tick is a tick, and an instruction one of the functions'. -/
def Schedules (e : TaskEvent) (d : Turn) : Prop := d.isTick = e.isTick

/-- The machine with its tasks does what the functions say. -/
theorem simulates_tasks (code : ∀ i, Code img i) :
    Lts.Simulates (Traced.step code) Tasks.step (fun _ => True) Schedules (Performing code) := by
  rintro t a e t' ⟨b, h⟩ - hstep
  obtain ⟨s', hs', rfl⟩ := Option.map_eq_some_iff.mp hstep
  cases e with
  | tick σ => exact ⟨.tick, _, rfl, rfl, h.tick hs'⟩
  | instr σ =>
    have hcpl : t.machine.cpu.cpl = 3 := by
      by_contra hnot
      rw [Machine.taskStep, if_neg hnot] at hs'
      cases hs'
    obtain ⟨i, hcur, -⟩ := h.shares.refines.1.mode.task_of_cpl hcpl
    have hinstr (n : Nat) : a.step (.instr n) = some (a.instr i n) := by
      rw [Tasks.step, ← h.current, show b.current = some i from hcur]
      rfl
    obtain ⟨p, k, htodo⟩ : ∃ p k, a.todo i = (p, k) := ⟨_, _, rfl⟩
    cases k with
    | succ k =>
      refine ⟨.instr 0, _, rfl, hinstr 0, ?_⟩
      rw [Tasks.instr_own htodo]
      exact h.own hcur htodo hs'
    | zero =>
      obtain ⟨n, h'⟩ := h.access hcur htodo hs'
      refine ⟨.instr n, _, rfl, hinstr n, ?_⟩
      rw [Tasks.instr_access htodo]
      exact h'

/-- Before the first tick. -/
theorem Booted.performing (code : ∀ i, Code img i) (h : Booted img s) :
    Performing code (.start s)
      (.start (fun i => (code i).lead) (s.mem.read32 counterPa)) := by
  refine ⟨_, h.shares, rfl, ?_, fun i _ => rfl, h.shares.counter.symm, rfl, rfl⟩
  intro i r hr
  cases hr

end Machine

end SecOS
