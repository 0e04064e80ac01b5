-- SUMMARY: The two tasks share the processor and one page and nothing else: a task is a function of its program, its start and what it finds in that page.
import SecOS.Base.TimeSharing
import SecOS.Exam.Atomicity
import SecOS.Exam.Isolation
import SecOS.Exam.Preemption
import SecOS.Exam.RoundRobin

/-!
# Sharing

The round robin of the tasks with their memory. The four megabytes of a task wait for it
as its registers do, in spite of the handlers, the other task and the devices; the shared
page is the one thing that changes behind its back.
-/

namespace SecOS

open X86

/-! ## Private and shared memory -/

/-- The physical memory that task `i` alone can reach. -/
def Private : Fin 2 → Word → Prop
  | 0, pa => 0x400000 ≤ pa.toNat ∧ pa.toNat < 0x800000
  | 1, pa => 0x800000 ≤ pa.toNat ∧ pa.toNat < 0xc00000

instance : ∀ i pa, Decidable (Private i pa)
  | 0, _ => inferInstanceAs (Decidable (_ ∧ _))
  | 1, _ => inferInstanceAs (Decidable (_ ∧ _))

def SharedPage (pa : Word) : Prop := 0xe00000 ≤ pa.toNat ∧ pa.toNat < 0xe01000

instance (pa : Word) : Decidable (SharedPage pa) := inferInstanceAs (Decidable (_ ∧ _))

def privateOf (i : Fin 2) (m : Mem) : Mem := fun pa => if Private i pa then m pa else 0

def sharedOf (m : Mem) : Mem := fun pa => if SharedPage pa then m pa else 0

/-- A memory with the given private and shared parts. -/
def joined (own shared : Mem) : Mem := fun pa => if SharedPage pa then shared pa else own pa

/-- What task `i` reads at its addresses. -/
def viewOf (i : Fin 2) (m : Mem) (va : Word) : Option Byte := (userMap i va).map m

/-- Stores of task `i`. -/
def poke (i : Fin 2) (m : Mem) (stores : List (Word × Byte)) : Mem :=
  stores.foldl (fun m st =>
    match userMap i st.1 with
    | some pa => Function.update m pa st.2
    | none => m) m

section Memory

variable {i j : Fin 2} {m m' : Mem} {pa va : Word} {stores : List (Word × Byte)}

theorem private_or_shared (h : userMap i va = some pa) : Private i pa ∨ SharedPage pa := by
  match i with
  | 0 => exact exists_userMap_zero.mp ⟨va, h⟩
  | 1 => exact exists_userMap_one.mp ⟨va, h⟩

theorem Private.not_shared (h : Private i pa) : ¬ SharedPage pa := by
  match i with
  | 0 => simp only [Private, SharedPage] at *; omega
  | 1 => simp only [Private, SharedPage] at *; omega

theorem Private.not_private (h : Private i pa) (hij : i ≠ j) : ¬ Private j pa := by
  match i, j with
  | 0, 0 => exact absurd rfl hij
  | 0, 1 => simp only [Private] at *; omega
  | 1, 0 => simp only [Private] at *; omega
  | 1, 1 => exact absurd rfl hij

theorem Private.ge (h : Private i pa) : 0x400000 ≤ pa.toNat := by
  match i with
  | 0 => exact h.1
  | 1 => exact Nat.le_trans (by decide) h.1

theorem SharedPage.ge (h : SharedPage pa) : 0x400000 ≤ pa.toNat := Nat.le_trans (by decide) h.1

theorem joined_eq (h : Private i pa ∨ SharedPage pa) :
    joined (privateOf i m) (sharedOf m) pa = m pa := by
  unfold joined privateOf sharedOf
  by_cases hshared : SharedPage pa
  · rw [if_pos hshared, if_pos hshared]
  · rw [if_neg hshared, if_pos (h.resolve_right hshared)]

theorem viewOf_joined (i : Fin 2) (m : Mem) :
    viewOf i (joined (privateOf i m) (sharedOf m)) = viewOf i m := by
  funext va
  unfold viewOf
  cases hmap : userMap i va with
  | none => rfl
  | some pa => exact congrArg some (joined_eq (private_or_shared hmap))

theorem poke_cons (i : Fin 2) (m : Mem) (va : Word) (b : Byte) (stores : List (Word × Byte)) :
    poke i m ((va, b) :: stores)
      = poke i (match userMap i va with | some pa => Function.update m pa b | none => m) stores :=
  rfl

/-- Stores go by what the task can reach. -/
theorem poke_congr (h : ∀ pa, Private i pa ∨ SharedPage pa → m pa = m' pa)
    (hpa : Private i pa ∨ SharedPage pa) : poke i m stores pa = poke i m' stores pa := by
  induction stores generalizing m m' with
  | nil => exact h pa hpa
  | cons st stores ih =>
    obtain ⟨va, b⟩ := st
    rw [poke_cons, poke_cons]
    refine ih fun q hq => ?_
    cases userMap i va with
    | none => exact h q hq
    | some p =>
      simp only [Function.update_apply]
      split
      · rfl
      · exact h q hq

theorem poke_of_not_reached (h : ¬ (Private i pa ∨ SharedPage pa)) :
    poke i m stores pa = m pa := by
  induction stores generalizing m with
  | nil => rfl
  | cons st stores ih =>
    obtain ⟨va, b⟩ := st
    rw [poke_cons, ih]
    cases hmap : userMap i va with
    | none => rfl
    | some p =>
      refine Function.update_of_ne ?_ _ _
      rintro rfl
      exact h (private_or_shared hmap)

theorem privateOf_congr (h : ∀ pa, Private i pa → m pa = m' pa) :
    privateOf i m = privateOf i m' := by
  funext pa
  unfold privateOf
  split
  · next hpa => exact h pa hpa
  · rfl

theorem sharedOf_congr (h : ∀ pa, SharedPage pa → m pa = m' pa) : sharedOf m = sharedOf m' := by
  funext pa
  unfold sharedOf
  split
  · next hpa => exact h pa hpa
  · rfl

/-- Each store goes through the page tables, which say what the task can reach. -/
theorem userStores_eq_poke (htables : TablesOk m)
    (h : Machine.userStores (pgdOf i) m stores = some m') : m' = poke i m stores := by
  induction stores generalizing m with
  | nil => exact (Option.some.inj h).symm
  | cons st stores ih =>
    obtain ⟨va, b⟩ := st
    simp only [Machine.userStores] at h
    split at h
    · next t ht =>
      split at h
      · next hrights =>
        have hrights' := hrights
        simp only [Bool.and_eq_true] at hrights
        have hmap : userMap i va = some t.pa := by
          rw [← userTranslate_pgdOf htables i, userTranslate, ht]
          exact if_pos hrights.1
        have hone : Machine.userStores (pgdOf i) m [(va, b)] = some (m.blit t.pa 1 fun _ => b) := by
          simp only [Machine.userStores, ht, if_pos hrights']
        have hupdate : m.blit t.pa 1 (fun _ => b) = Function.update m t.pa b := by
          funext q
          rw [Function.update_apply]
          split
          · next hq =>
            rw [hq]
            simp [Mem.blit]
          · next hq =>
            refine Mem.blit_not_within fun hin => hq ?_
            simp only [Within] at hin
            bv_omega
        rw [ih (Machine.userStores_spec htables hone).1 h, hupdate, poke_cons, hmap]
      · cases h
    · cases h

end Memory

namespace Machine

variable {img : Image} {σ : Scratch} {s s' s₀ s₀' : Machine} {cur : Option (Fin 2)} {i : Fin 2}
  {e : Event} {es es' : List Event}

/-! ## Steps of a task -/

/-- The events that are steps of the running task. -/
def ownStep : Event → Bool
  | .user _ | .int _ _ | .portOut _ _ _ | .portIn _ _ _ _ => true
  | .fault _ _ _ _ | .irq _ _ => false

/-- What a step does to the registers and to the private and the shared memory of task
`i`. -/
def taskEffect (e : Event) (i : Fin 2) (x : Regs × Mem × Mem) : Regs × Mem × Mem :=
  match e with
  | .user u =>
    let m := poke i (joined x.2.1 x.2.2) u.stores
    (computes e x.1, privateOf i m, sharedOf m)
  | _ => (computes e x.1, x.2)

/-- The abstract label of an event. -/
def SharingLabel (img : Image) (e : Event) (d : TimeSharing.Label (Fin 2) Regs Mem Mem) : Prop :=
  if timerEvent e = true then ∃ start, d = .tick start ∧ ∀ i, StartsAs (examTasks img i) (start i)
  else if ownStep e = true then d = .compute (taskEffect e)
  else d = .idle

/-- Registers are represented as in the round robin, and memory is what it is. -/
structure Shares (img : Image) (s : Machine) (a : TimeSharing.State (Fin 2) Regs Mem Mem) :
    Prop where
  refines : Refines img s a.toState
  own : a.own = fun i => privateOf i s.mem
  shared : a.shared = sharedOf s.mem

/-- Memory of the tasks is written to by their own instructions only. -/
theorem Effect.mem_eq_of_ge (he : Effect img s cur e s') (h : Inv img s cur)
    (huser : ∀ u, e ≠ .user u) {pa : Word} (hpa : 0x400000 ≤ pa.toNat) : s'.mem pa = s.mem pa := by
  have harea : ¬ StackArea s.frameTop pa := fun harea => by
    have hlt : pa.toNat < 0x400000 := h.mode.kernelTop.stackArea_lt harea
    omega
  cases he with
  | user hcur hcs hss hmem => exact absurd rfl (huser _)
  | clockIrq hfree σ => exact clockMem_area (s := s.withPics (servicing s.pics 0)) harea
  | clockInt hcur σ => exact clockMem_area (s := s.afterInt) harea
  | syscall hcur σ hread => exact syscallDone_area (s := s.afterInt) harea
  | device hn hfree σ => exact returned_area (s := s.withPics _) harea
  | nmi hcur σ => exact returned_area (s := s.withCr2 _) harea
  | portOut hcur hok σ => rw [outs_eq]
  | portIn hcur hok hreads σ => rfl

variable {a : TimeSharing.State (Fin 2) Regs Mem Mem}

theorem Shares.memory_eq (h : Shares img s a) {own : Fin 2 → Mem} {shared : Mem}
    (hown : own = a.own) (hshared : shared = a.shared)
    (hmem : ∀ pa : Word, 0x400000 ≤ pa.toNat → s'.mem pa = s.mem pa) :
    own = (fun i => privateOf i s'.mem) ∧ shared = sharedOf s'.mem := by
  refine ⟨?_, ?_⟩
  · rw [hown, h.own]
    funext i
    exact privateOf_congr fun pa hpa => (hmem pa hpa.ge).symm
  · rw [hshared, h.shared]
    exact sharedOf_congr fun pa hpa => (hmem pa hpa.ge).symm

theorem Shares.timer (h : Shares img s a) (hstep : step img s (.irq 0 σ) = some s') :
    ∃ start, (∀ i, StartsAs (examTasks img i) (start i)) ∧ Shares img s' (a.tick nextOf start) := by
  obtain ⟨start, hstart, href⟩ := h.refines.timer hstep
  have heff := effect_of_step h.refines.1 hstep
  obtain ⟨hown, hshared⟩ := h.memory_eq rfl rfl
    fun pa hpa => heff.mem_eq_of_ge h.refines.1 (by simp) hpa
  exact ⟨start, hstart, href, hown, hshared⟩

/-- What does not touch a task. -/
theorem Shares.idle (h : Shares img s a) (hok : SparesTimer e) (htimer : ¬ timerEvent e = true)
    (hown : ¬ ownStep e = true) (hstep : step img s e = some s') : Shares img s' a := by
  have href := h.refines.compute hok htimer hstep
  have hcomputes : computes e = id := by
    cases e with
    | fault v err cr2 σ => rfl
    | irq n σ => rfl
    | _ => exact absurd rfl hown
  have hsame : a.toState.compute (computes e) = a.toState := by
    rw [hcomputes]
    unfold RoundRobin.State.compute
    simp only [Option.map_id, id_eq, ite_self]
  have heff := effect_of_step h.refines.1 hstep
  have huser : ∀ u, e ≠ .user u := by
    rintro u rfl
    exact hown rfl
  obtain ⟨ho, hs⟩ := h.memory_eq rfl rfl
    fun pa hpa => heff.mem_eq_of_ge h.refines.1 huser hpa
  exact ⟨hsame ▸ href, ho, hs⟩

theorem cur_of_ownStep (h : Inv img s cur) (hown : ownStep e = true)
    (hstep : step img s e = some s') : ∃ i, cur = some i := by
  cases effect_of_step h hstep with
  | user hcur hcs hss hmem => exact ⟨_, hcur⟩
  | clockIrq hfree σ => cases hown
  | clockInt hcur σ => exact ⟨_, hcur⟩
  | syscall hcur σ hread => exact ⟨_, hcur⟩
  | device hn hfree σ => cases hown
  | nmi hcur σ => cases hown
  | portOut hcur hok σ => exact ⟨_, hcur⟩
  | portIn hcur hok hreads σ => exact ⟨_, hcur⟩

/-- A store changes the private memory of the running task and the shared page as the
task's own view of the two says, and nothing of the other task. -/
theorem memory_of_stores (htables : TablesOk s.mem) (hcr3 : s.cpu.cr3 = pgdOf i)
    {stores : List (Word × Byte)} {m : Mem} (h : userStores s.cpu.cr3 s.mem stores = some m) :
    privateOf i m = privateOf i (poke i (joined (privateOf i s.mem) (sharedOf s.mem)) stores) ∧
    sharedOf m = sharedOf (poke i (joined (privateOf i s.mem) (sharedOf s.mem)) stores) ∧
    ∀ j, j ≠ i → privateOf j m = privateOf j s.mem := by
  rw [hcr3] at h
  obtain rfl := userStores_eq_poke htables h
  have hview : ∀ pa, Private i pa ∨ SharedPage pa →
      s.mem pa = joined (privateOf i s.mem) (sharedOf s.mem) pa :=
    fun pa hpa => (joined_eq hpa).symm
  refine ⟨privateOf_congr fun pa hpa => ?_, sharedOf_congr fun pa hpa => ?_, fun j hj => ?_⟩
  · exact poke_congr hview (.inl hpa)
  · exact poke_congr hview (.inr hpa)
  · refine privateOf_congr fun pa hpa => poke_of_not_reached ?_
    rintro (hi | hshared)
    · exact hpa.not_private hj hi
    · exact hpa.not_shared hshared

theorem Shares.compute (h : Shares img s a) (hok : SparesTimer e) (htimer : ¬ timerEvent e = true)
    (hown : ownStep e = true) (hstep : step img s e = some s') :
    Shares img s' (a.compute (taskEffect e)) := by
  obtain ⟨i, hcur⟩ := cur_of_ownStep h.refines.1 hown hstep
  have hregs := h.refines.2.running i hcur
  have href := h.refines.compute hok htimer hstep
  have hfirst : ∀ x : Regs × Mem × Mem, (taskEffect e i x).1 = computes e x.1 := by
    intro x
    cases e <;> rfl
  rw [← TimeSharing.toState_compute hcur fun r _ => hfirst (r, a.own i, a.shared)] at href
  have heff := effect_of_step h.refines.1 hstep
  have hmem : (taskEffect e i (regsOf s.cpu, a.own i, a.shared)).2
        = (privateOf i s'.mem, sharedOf s'.mem) ∧
      ∀ j, j ≠ i → privateOf j s'.mem = privateOf j s.mem := by
    by_cases huser : ∃ u, e = .user u
    · obtain ⟨u, rfl⟩ := huser
      cases heff with
      | user hcur' hcs hss hstores =>
        have hm := h.refines.1.mode
        rw [hcur] at hm
        obtain ⟨hprivate, hshared, hother⟩ :=
          memory_of_stores h.refines.1.kernel.tables (UserMode.cr3 hm) hstores
        refine ⟨?_, hother⟩
        simp only [taskEffect, h.own, h.shared]
        rw [hprivate, hshared]
    · have hge : ∀ pa : Word, 0x400000 ≤ pa.toNat → s'.mem pa = s.mem pa :=
        fun pa hpa => heff.mem_eq_of_ge h.refines.1 (fun u hu => huser ⟨u, hu⟩) hpa
      have hkept : ∀ j, privateOf j s'.mem = privateOf j s.mem :=
        fun j => privateOf_congr fun pa hpa => hge pa hpa.ge
      have hshared : sharedOf s'.mem = sharedOf s.mem :=
        sharedOf_congr fun pa hpa => hge pa hpa.ge
      refine ⟨?_, fun j _ => hkept j⟩
      rw [hkept i, hshared, h.own, h.shared]
      cases e with
      | user u => exact absurd ⟨u, rfl⟩ huser
      | _ => rfl
  refine ⟨href, ?_, ?_⟩
  · rw [TimeSharing.own_compute hcur hregs]
    funext j
    by_cases hj : j = i
    · subst hj
      rw [Function.update_self, hmem.1]
    · rw [Function.update_of_ne hj, h.own, hmem.2 j hj]
  · rw [TimeSharing.shared_compute hcur hregs, hmem.1]

/-! ## Simulation -/

theorem Shares.take (h : Shares img s a) (hok : SparesTimer e) (hstep : step img s e = some s') :
    ∃ d, SharingLabel img e d ∧ Shares img s' (a.take nextOf d) := by
  unfold SharingLabel
  by_cases htimer : timerEvent e = true
  · obtain ⟨σ, rfl⟩ := irq_of_timerEvent htimer
    obtain ⟨start, hstart, h'⟩ := h.timer hstep
    exact ⟨.tick start, ⟨start, rfl, hstart⟩, h'⟩
  · simp only [if_neg htimer]
    by_cases hown : ownStep e = true
    · simp only [if_pos hown]
      exact ⟨_, rfl, h.compute hok htimer hown hstep⟩
    · simp only [if_neg hown]
      exact ⟨_, rfl, h.idle hok htimer hown hstep⟩

/-- Nothing has run, and memory is as the boot has left it. -/
def sharingInit (s : Machine) : TimeSharing.State (Fin 2) Regs Mem Mem where
  toState := .init
  own i := privateOf i s.mem
  shared := sharedOf s.mem

theorem Booted.shares (h : Booted img s) : Shares img s (sharingInit s) := ⟨h.refines, rfl, rfl⟩

theorem simulates_timeSharing (img : Image) :
    Lts.Simulates (step img) (TimeSharing.step nextOf) SparesTimer (SharingLabel img)
      (Shares img) := by
  intro s a e s' h hok hstep
  obtain ⟨d, hd, h'⟩ := h.take hok hstep
  exact ⟨d, _, hd, rfl, h'⟩

/-- Every run from the boot is one of the two tasks taking turns, each with memory of its
own, and one page between them. -/
theorem timeSharing_of_run (hboot : Booted img s₀) (hes : ∀ e ∈ es, SparesTimer e)
    (hrun : Lts.run (step img) s₀ es = some s) :
    ∃ ds a, List.Forall₂ (SharingLabel img) es ds ∧
      Lts.run (TimeSharing.step nextOf) (sharingInit s₀) ds = some a ∧
      Represents s a.toState ∧ a.own = (fun i => privateOf i s.mem) ∧
      a.shared = sharedOf s.mem := by
  obtain ⟨ds, a, hlabels, hds, h⟩ := (simulates_timeSharing img).run hboot.shares hes hrun
  exact ⟨ds, a, hlabels, hds, h.refines.2, h.own, h.shared⟩

theorem timeSharing_sampleTask :
    ∃ ds a, List.Forall₂ (SharingLabel sampleImage) [.irq 0 sampleScratch] ds ∧
      Lts.run (TimeSharing.step nextOf) (sharingInit sample) ds = some a ∧
      Represents sampleTask a.toState ∧ a.own = (fun i => privateOf i sampleTask.mem) ∧
      a.shared = sharedOf sampleTask.mem :=
  timeSharing_of_run booted_sample (by simp [SparesTimer, SparesPics]) run_sampleTask

/-! ## Noninterference -/

/-- What a task does next. -/
inductive Action where
  | instr (u : UserStep)
  | int (n : Fin 256)

/-- A program goes by the registers and by what it reads at its addresses. It uses no
port and does not look at its data segment registers. -/
abbrev Program := Regs → (Word → Option Byte) → Action

def Action.Does : Action → Event → Prop
  | .instr u, .user u' => u = u'
  | .int n, .int n' _ => n = n'
  | _, _ => False

/-- If task `i` runs and takes a step, it is the one of its program. -/
def Follows (i : Fin 2) (prog : Program) (s : Machine) (e : Event) : Prop :=
  ownStep e = true → s.currentTaskIdx = idxWord (some i) →
    (prog (regsOf s.cpu) (viewOf i s.mem)).Does e

def FollowsRun (img : Image) (i : Fin 2) (prog : Program) : Machine → List Event → Prop
  | _, [] => True
  | s, e :: es =>
    Follows i prog s e ∧ ∀ s', step img s e = some s' → FollowsRun img i prog s' es

/-- What reaches task `i` from outside with a step to `s'`: its first registers, and the
shared page at each of its steps. -/
def input (i : Fin 2) (s : Machine) (e : Event) (s' : Machine) :
    List (TimeSharing.Input Regs Mem) :=
  if timerEvent e = true then
    if s'.currentTaskIdx = idxWord (some i) ∧ (s.tasks i).contextSaved ≠ 1 then
      [.start (regsOf s'.cpu)]
    else []
  else if ownStep e = true ∧ s.currentTaskIdx = idxWord (some i) then [.sees (sharedOf s.mem)]
  else []

def inputs (img : Image) (i : Fin 2) : Machine → List Event → List (TimeSharing.Input Regs Mem)
  | _, [] => []
  | s, e :: es =>
    match step img s e with
    | some s' => input i s e s' ++ inputs img i s' es
    | none => []

/-- The program of task `i` on registers, private memory and shared page. -/
def behaviour (i : Fin 2) (prog : Program) (x : Regs × Mem × Mem) : Regs × Mem × Mem :=
  match prog x.1 (viewOf i (joined x.2.1 x.2.2)) with
  | .instr u => taskEffect (.user u) i x
  | .int _ => ({ x.1 with eip := x.1.eip + 2 }, x.2)

theorem idxWord_inj {c c' : Option (Fin 2)} : idxWord c = idxWord c' ↔ c = c' := by
  constructor
  · intro h
    match c, c' with
    | none, none => rfl
    | some i, some j => rw [← taskAt_idxWord i, h, taskAt_idxWord]
    | none, some i => exact absurd h.symm (idxWord_some_ne i)
    | some i, none => exact absurd h (idxWord_some_ne i)
  · exact congrArg idxWord

theorem ne_some_nextOf (c : Option (Fin 2)) : c ≠ some (nextOf c) := by
  match c with
  | none => simp
  | some i => exact fun h => nextOf_ne i (Option.some.inj h).symm

theorem Shares.currentTaskIdx_eq (h : Shares img s a) :
    s.currentTaskIdx = idxWord (some i) ↔ a.current = some i := by
  rw [h.refines.2.currentTaskIdx, idxWord_inj]

/-- A label of a step of the running task is its event's. -/
theorem SharingLabel.compute {f : Fin 2 → Regs × Mem × Mem → Regs × Mem × Mem}
    (h : SharingLabel img e (.compute f)) : ownStep e = true ∧ f = taskEffect e := by
  unfold SharingLabel at h
  split at h
  · obtain ⟨start, hd, -⟩ := h
    cases hd
  · split at h
    · next hown => exact ⟨hown, TimeSharing.Label.compute.inj h⟩
    · cases h

variable {prog : Program} {d : TimeSharing.Label (Fin 2) Regs Mem Mem}

theorem Shares.complies (h : Shares img s a) (hd : SharingLabel img e d)
    (hprog : Follows i prog s e) : TimeSharing.Complies (behaviour i prog) i a d := by
  rintro f r rfl hcur hr
  obtain ⟨hown, rfl⟩ := hd.compute
  obtain rfl : regsOf s.cpu = r := Option.some.inj ((h.refines.2.running i hcur).symm.trans hr)
  have hdoes := hprog hown (h.currentTaskIdx_eq.mpr hcur)
  unfold behaviour
  simp only [h.own, h.shared, viewOf_joined]
  cases hact : prog (regsOf s.cpu) (viewOf i s.mem) with
  | instr u =>
    rw [hact] at hdoes
    cases e with
    | user u' => rw [show u = u' from hdoes]
    | _ => exact hdoes.elim
  | int n =>
    rw [hact] at hdoes
    cases e with
    | int n' σ => rfl
    | _ => exact hdoes.elim

theorem Shares.input_eq (h : Shares img s a) (hd : SharingLabel img e d)
    (h' : Shares img s' (a.take nextOf d)) :
    input i s e s' = TimeSharing.input nextOf i a d := by
  unfold input
  unfold SharingLabel at hd
  split at hd
  · next htimer =>
    obtain ⟨start, rfl, -⟩ := hd
    have hcur : (a.take nextOf (.tick start)).current = some (nextOf a.current) := rfl
    simp only [if_pos htimer, h'.currentTaskIdx_eq, hcur, Option.some.injEq, TimeSharing.input]
    by_cases hi : nextOf a.current = i
    · subst hi
      have hwait := h.refines.2.waiting _ (ne_some_nextOf a.current)
      have hregs := h'.refines.2.running _ hcur
      have htick : (a.take nextOf (.tick start)).regs (nextOf a.current)
          = some ((a.regs (nextOf a.current)).getD (start (nextOf a.current))) := if_pos rfl
      rw [htick, Option.some.injEq] at hregs
      by_cases hsaved : (s.tasks (nextOf a.current)).contextSaved = 1
      · rw [if_pos hsaved] at hwait
        simp [hsaved, hwait]
      · rw [if_neg hsaved] at hwait
        rw [if_pos ⟨rfl, hsaved⟩, if_pos ⟨rfl, by rw [hwait]; rfl⟩, ← hregs, hwait]
        rfl
    · simp [hi]
  · next htimer =>
    rw [if_neg htimer]
    split at hd
    · next hown =>
      subst hd
      simp only [hown, h.currentTaskIdx_eq, true_and, TimeSharing.input, h.shared]
    · next hown =>
      subst hd
      simp [hown, TimeSharing.input]

/-- The program and the inputs of a task are those of the round robin. -/
theorem Shares.run (h : Shares img s a) (hes : ∀ e ∈ es, SparesTimer e)
    (hrun : Lts.run (step img) s es = some s') (hprog : FollowsRun img i prog s es) :
    ∃ ds b, Lts.run (TimeSharing.step nextOf) a ds = some b ∧ Shares img s' b ∧
      TimeSharing.Obeys nextOf (behaviour i prog) i a ds ∧
      TimeSharing.inputs nextOf i a ds = inputs img i s es := by
  induction es generalizing s a with
  | nil =>
    obtain rfl := Lts.run_nil.mp hrun
    exact ⟨[], a, Lts.run_nil.mpr rfl, h, trivial, rfl⟩
  | cons e es ih =>
    obtain ⟨u, hstep, hrest⟩ := Lts.run_cons.mp hrun
    obtain ⟨d, hd, hu⟩ := h.take (hes e List.mem_cons_self) hstep
    obtain ⟨ds, b, hds, hb, hobeys, hinputs⟩ :=
      ih hu (fun e' he' => hes e' (List.mem_cons_of_mem _ he')) hrest (hprog.2 u hstep)
    refine ⟨d :: ds, b, Lts.run_cons.mpr ⟨_, rfl, hds⟩, hb, ⟨h.complies hd hprog.1, hobeys⟩, ?_⟩
    simp only [TimeSharing.inputs, inputs, hstep, hinputs, h.input_eq hd hu]

def fineTimerEvent : FineEvent → Bool
  | .irq n => n == 0
  | _ => false

/-- `SparesTimer` of the event with its handler. -/
def FineSparesTimer (e : FineEvent) : Prop := ∀ σ e', wholeEvent σ e = some e' → SparesTimer e'

/-- `SparesPolls` of the event with its handler. -/
def FineSparesPolls (e : FineEvent) : Prop := ∀ σ e', wholeEvent σ e = some e' → SparesPolls e'

theorem FineSparesTimer.sparesPics {e : FineEvent} (h : FineSparesTimer e) : FineSparesPics e :=
  fun σ e' he => (h σ e' he).1

theorem WholeOf.timerEvent {e : FineEvent} {e' : Event} (h : WholeOf e e') :
    Machine.timerEvent e' = fineTimerEvent e := by
  obtain ⟨σ, he⟩ := h
  cases e with
  | exec σ' => cases he
  | _ => rw [← Option.some.inj he]; rfl

theorem Serialised.countP {es : List FineEvent} {es' : List Event} (h : Serialised es es') :
    es'.countP timerEvent = es.countP fineTimerEvent := by
  have hwhole : ∀ {fs : List FineEvent} {es' : List Event}, List.Forall₂ WholeOf fs es' →
      es'.countP timerEvent = fs.countP fineTimerEvent := by
    intro fs es' hfs
    induction hfs with
    | nil => rfl
    | cons he _ ih => rw [List.countP_cons, List.countP_cons, ih, he.timerEvent]
  rw [hwhole h, List.countP_filter]
  refine List.countP_congr fun e _ => ?_
  cases e <;> simp [fineTimerEvent, FineEvent.isExec]

/-- What holds of each event with its handler holds in the run of whole handlers. -/
theorem Serialised.forall_mem {P : Event → Prop} {es : List FineEvent} {es' : List Event}
    (h : Serialised es es') (hes : ∀ e ∈ es, ∀ σ e', wholeEvent σ e = some e' → P e') :
    ∀ e ∈ es', P e := by
  have hfilter : ∀ e ∈ es.filter (fun e => !e.isExec), ∀ σ e', wholeEvent σ e = some e' → P e' :=
    fun e he => hes e (List.mem_filter.mp he).1
  unfold Serialised at h
  generalize es.filter (fun e => !e.isExec) = fs at h hfilter
  induction h with
  | nil => simp
  | cons he _ ih =>
    obtain ⟨σ, hσ⟩ := he
    intro e' hmem
    rcases List.mem_cons.mp hmem with rfl | hmem
    · exact hfilter _ List.mem_cons_self σ _ hσ
    · exact ih (fun e he => hfilter e (List.mem_cons_of_mem _ he)) e' hmem

/-- Whenever level 3 executes, requests at any instruction boundary have made no difference
to the tasks: they have taken turns as with whole handlers, each with its registers and its
memory, the one that runs is the one whose turn it is, and it can be interrupted again. -/
theorem timeSharing_of_fineRun {es : List FineEvent} (hboot : Booted img s₀)
    (hes : ∀ e ∈ es, FineSparesTimer e) (hpolls : ∀ e ∈ es, FineSparesPolls e)
    (hquiet : LaunchesUndisturbed img s₀ es) (hrun : Lts.run (fineStep img) s₀ es = some s)
    (hcpl : s.cpu.cpl = 3) :
    ∃ es', Serialised es es' ∧
      (∃ ds a, List.Forall₂ (SharingLabel img) es' ds ∧
        Lts.run (TimeSharing.step nextOf) (sharingInit s₀) ds = some a ∧
        Represents s a.toState ∧ a.own = (fun i => privateOf i s.mem) ∧
        a.shared = sharedOf s.mem) ∧
      InTurn s (es.countP fineTimerEvent) ∧ Isolated s.mem ∧
      s.cpu.intrFlag = true ∧ field s.cpu.eflags 12 2 = 0 ∧ s.pics.Idle := by
  rcases hboot.serial (fun e he => (hes e he).sparesPics) hquiet hrun with
    ⟨cur, hdone⟩ | ⟨pre, e, fs, rfl, hinside⟩
  · obtain ⟨es', hserial, hrun'⟩ := hdone.run
    have hes' := hserial.forall_mem hes
    have hpolls' := hserial.forall_mem hpolls
    have hidle := quiet_of_run hboot.inv hboot.quiet
      (fun e he => ⟨(hes' e he).1, hpolls' e he⟩) hrun'
    obtain ⟨ds, a, hlabels, hds, h⟩ := (simulates_timeSharing img).run hboot.shares hes' hrun'
    obtain ⟨-, b, -, -, href, hcur⟩ := refines_of_run hboot hes' hrun'
    have hturn := href.inTurn hcur
    rw [hserial.countP] at hturn
    exact ⟨es', hserial, ⟨ds, a, hlabels, hds, h.refines.2, h.own, h.shared⟩, hturn,
      hdone.inv.kernel.tables.isolated, hdone.inv.mode.intrFlag, hdone.inv.mode.iopl,
      hidle.idle⟩
  · obtain ⟨u, t, cur, pc, -, -, -, -, hhandling⟩ := hinside.handler
    rw [hhandling.place.cpl] at hcpl
    cases hcpl

theorem timeSharing_fine_sampleTask :
    ∃ es, Serialised es [.irq 0 sampleScratch] ∧
      Lts.run (fineStep sampleImage) sample es = some sampleTask ∧
      InTurn sampleTask (es.countP fineTimerEvent) := by
  obtain ⟨es, hserial, -, hquiet, hrun⟩ :=
    booted_sample.fineRun (by simp [SparesPics]) run_sampleTask
  have hes : ∀ e ∈ es, ∀ σ e', wholeEvent σ e = some e' → SparesTimer e' ∧ SparesPolls e' := by
    intro e he σ e' hwhole
    have hmem : e ∈ es.filter fun e => !e.isExec := by
      refine List.mem_filter.mpr ⟨he, ?_⟩
      cases e with
      | exec σ' => cases hwhole
      | _ => rfl
    obtain ⟨f, fs, ⟨σ', hf⟩, hfs, hfilter⟩ := List.forall₂_cons_right_iff.mp hserial
    rw [List.forall₂_nil_right_iff.mp hfs] at hfilter
    rw [hfilter, List.mem_singleton] at hmem
    subst hmem
    cases e with
    | irq n =>
      obtain ⟨rfl, -⟩ := Event.irq.inj (Option.some.inj hf)
      rw [← Option.some.inj hwhole]
      exact ⟨⟨trivial, by simp⟩, trivial⟩
    | _ => cases hf
  obtain ⟨-, -, -, hturn, -⟩ := timeSharing_of_fineRun booted_sample
    (fun e he σ e' hwhole => (hes e he σ e' hwhole).1)
    (fun e he σ e' hwhole => (hes e he σ e' hwhole).2) hquiet hrun rfl
  exact ⟨es, hserial, hrun, hturn⟩

end Machine

end SecOS
