-- SUMMARY: What the two task functions do to their counter under every schedule, and when the values printed count the increments.
import SecOS.Base.Lts
import SecOS.Exam.Clock

/-!
# Tasks

`task1_function` and `task2_function` as far as the counter goes: the increment is a
reading and a writing half, with a tick possible between any two instructions. What else
their instructions do touches nothing shared; how many of them come before an access is up
to the compiler.
-/

namespace SecOS

open X86

/-! ## The functions -/

/-- What a task function does next to the counter. -/
inductive Point where
  /-- `*counter = 0` -/
  | clear
  /-- `*counter` is read in `*counter = *counter + 1`. -/
  | load
  /-- It was `v`, and is written. -/
  | store (v : Word)
  /-- `sys_counter(counter)` -/
  | print
  deriving DecidableEq

def task1Function : Point := .clear
def task2Function : Point := .print

def taskFunction : Fin 2 → Point
  | 0 => task1Function
  | 1 => task2Function

namespace Point

/-- What the access stores. -/
def stores : Point → Option Word
  | clear => some 0
  | store v => some (v + 1)
  | load | print => none

/-- What comes after it, when the counter held `w`. -/
def next (w : Word) : Point → Point
  | clear | store _ => load
  | load => store w
  | print => print

end Point

/-- A value printed, and how many stores there had been. -/
structure Print where
  value : Word
  stored : Nat

/-- Both tasks between two instructions. -/
structure Tasks where
  current : Option (Fin 2)
  /-- The next access of each task, and how many instructions of its own come before it. -/
  todo : Fin 2 → Point × Nat
  counter : Word
  /-- The stores to the counter: the first is the zero, and every other one an increment. -/
  stored : Nat
  printed : List Print

/-- A tick, or an instruction of the task that runs. If it accesses the counter, `n`
instructions come before the next access. -/
inductive Turn where
  | tick
  | instr (n : Nat)

def Turn.isTick : Turn → Bool
  | tick => true
  | instr _ => false

namespace Tasks

open Machine (nextOf)

/-- Both tasks at the start, `lead` instructions ahead of their first accesses. -/
def start (lead : Fin 2 → Nat) (w : Word) : Tasks where
  current := none
  todo i := (taskFunction i, lead i)
  counter := w
  stored := 0
  printed := []

/-- An instruction of task `i` that leaves the counter alone. -/
def own (a : Tasks) (i : Fin 2) (p : Point) (n : Nat) : Tasks :=
  { a with todo := Function.update a.todo i (p, n) }

/-- One that does `p` to it. -/
def access (a : Tasks) (i : Fin 2) (p : Point) (n : Nat) : Tasks :=
  { a with
    todo := Function.update a.todo i (p.next a.counter, n)
    counter := p.stores.getD a.counter
    stored := if p.stores.isSome then a.stored + 1 else a.stored
    printed := if p = .print then a.printed ++ [⟨a.counter, a.stored⟩] else a.printed }

def instr (a : Tasks) (i : Fin 2) (n : Nat) : Tasks :=
  match a.todo i with
  | (p, m + 1) => a.own i p m
  | (p, 0) => a.access i p n

def step (a : Tasks) : Turn → Option Tasks
  | .tick => some { a with current := some (nextOf a.current) }
  | .instr n => a.current.map fun i => a.instr i n

/-! ## What the numbers mean -/

/-- Each value is the number of increments stored before it, and the values never decrease
as long as the counter does not wrap around. -/
structure Counts (stored : Nat) (printed : List Print) : Prop where
  value : ∀ p ∈ printed, p.value = BitVec.ofNat 32 (p.stored - 1)
  sorted : stored - 1 < 2 ^ 32 → printed.Pairwise fun p q => p.value.toNat ≤ q.value.toNat

/-- Where task 1 is after `stored` stores. -/
inductive Writes (stored : Nat) (counter : Word) : Point → Prop
  | clear (h : stored = 0) : Writes stored counter .clear
  | load (h : stored ≠ 0) : Writes stored counter .load
  | store (h : stored ≠ 0) : Writes stored counter (.store counter)

/-- The counter after `stored` stores, when it was `w` before them. -/
def countedFrom (w : Word) (stored : Nat) : Word :=
  if stored = 0 then w else BitVec.ofNat 32 (stored - 1)

structure CountInv (w : Word) (a : Tasks) : Prop where
  writer : Writes a.stored a.counter (a.todo 0).1
  reader : (a.todo 1).1 = .print
  counter : a.counter = countedFrom w a.stored
  printed : ∀ p ∈ a.printed, p.stored ≤ a.stored ∧ p.value = countedFrom w p.stored
  sorted : a.printed.Pairwise fun p q => p.stored ≤ q.stored

variable {a b : Tasks} {w : Word} {i j : Fin 2} {p : Point} {lead : Fin 2 → Nat}
  {ds : List Turn} {n k : Nat}

@[simp] theorem todo_own : (a.own i p n).todo i = (p, n) := Function.update_self ..

@[simp] theorem todo_access : (a.access i p n).todo i = (p.next a.counter, n) :=
  Function.update_self ..

theorem todo_own_of_ne (h : j ≠ i) : (a.own i p n).todo j = a.todo j := Function.update_of_ne h _ _

theorem todo_access_of_ne (h : j ≠ i) : (a.access i p n).todo j = a.todo j :=
  Function.update_of_ne h _ _

theorem printed_access_print :
    (a.access i .print n).printed = a.printed ++ [⟨a.counter, a.stored⟩] := by
  simp only [access, if_true]

theorem instr_own (h : a.todo i = (p, k + 1)) : a.instr i n = a.own i p k := by
  simp only [instr, h]

theorem instr_access (h : a.todo i = (p, 0)) : a.instr i n = a.access i p n := by
  simp only [instr, h]

theorem CountInv.start (lead : Fin 2 → Nat) (w : Word) : CountInv w (.start lead w) where
  writer := .clear rfl
  reader := rfl
  counter := rfl
  printed p hp := by cases hp
  sorted := .nil

theorem CountInv.own (h : CountInv w a) (hp : (a.todo i).1 = p) : CountInv w (a.own i p n) := by
  have hpoint (j : Fin 2) : ((a.own i p n).todo j).1 = (a.todo j).1 := by
    by_cases hj : j = i
    · subst hj
      rw [todo_own, hp]
    · rw [todo_own_of_ne hj]
  refine ⟨?_, (hpoint 1).trans h.reader, h.counter, h.printed, h.sorted⟩
  rw [hpoint 0]
  exact h.writer

/-- A store is the zero or one more increment. -/
theorem countedFrom_succ (h : CountInv w a) {v : Word} (hv : (a.todo 0).1.stores = some v) :
    v = countedFrom w (a.stored + 1) := by
  have hcounter := h.counter
  rw [countedFrom, if_neg (Nat.succ_ne_zero _), Nat.add_sub_cancel]
  cases hp : (a.todo 0).1 with
  | clear =>
    have hw := h.writer
    rw [hp] at hv hw
    cases hw with
    | clear hzero =>
      rw [hzero]
      exact (Option.some.inj hv).symm
  | store u =>
    have hw := h.writer
    rw [hp] at hv hw
    cases hw with
    | store hne =>
      rw [countedFrom, if_neg hne] at hcounter
      have hone : a.stored - 1 + 1 = a.stored := by omega
      rw [← Option.some.inj hv, hcounter, ← hone, BitVec.ofNat_add, hone]
      rfl
  | load =>
    rw [hp] at hv
    cases hv
  | print =>
    rw [hp] at hv
    cases hv

/-- Task 1 accesses the counter. -/
theorem CountInv.write (h : CountInv w a) (hp : (a.todo 0).1 = p) :
    CountInv w (a.access 0 p n) := by
  have hother : (a.access 0 p n).todo 1 = a.todo 1 := todo_access_of_ne (by decide)
  have hnot : p ≠ .print := by
    rintro rfl
    have hw := h.writer
    rw [hp] at hw
    cases hw
  have hprinted : (a.access 0 p n).printed = a.printed := if_neg hnot
  have hle : a.stored ≤ (a.access 0 p n).stored := by
    simp only [access]
    split <;> omega
  refine ⟨?_, by rw [hother]; exact h.reader, ?_, ?_, by rw [hprinted]; exact h.sorted⟩
  · rw [todo_access]
    have hw := h.writer
    rw [hp] at hw
    cases hw with
    | clear hzero => exact .load (Nat.succ_ne_zero _)
    | load hne => exact .store hne
    | store hne => exact .load (Nat.succ_ne_zero _)
  · simp only [access]
    cases hv : p.stores with
    | none => exact h.counter
    | some v =>
      rw [← hp] at hv
      exact countedFrom_succ h hv
  · intro q hq
    rw [hprinted] at hq
    exact (h.printed q hq).imp_left fun hq' => hq'.trans hle

/-- Task 2 does. -/
theorem CountInv.print (h : CountInv w a) : CountInv w (a.access 1 .print n) := by
  have hother : (a.access 1 .print n).todo 0 = a.todo 0 := todo_access_of_ne (by decide)
  refine ⟨by rw [hother]; exact h.writer, by rw [todo_access]; rfl, h.counter, ?_, ?_⟩
  · intro q hq
    rw [printed_access_print, List.mem_append, List.mem_singleton] at hq
    rcases hq with hq | rfl
    · exact h.printed q hq
    · exact ⟨le_rfl, h.counter⟩
  · rw [printed_access_print, List.pairwise_append]
    refine ⟨h.sorted, List.pairwise_singleton _ _, fun q hq r hr => ?_⟩
    rw [List.mem_singleton.mp hr]
    exact (h.printed q hq).1

theorem CountInv.instr (h : CountInv w a) : CountInv w (a.instr i n) := by
  obtain ⟨p, m, htodo⟩ : ∃ p m, a.todo i = (p, m) := ⟨_, _, rfl⟩
  have hp : (a.todo i).1 = p := congrArg Prod.fst htodo
  cases m with
  | succ m => exact instr_own htodo ▸ h.own hp
  | zero =>
    rw [instr_access htodo]
    obtain rfl | rfl : i = 0 ∨ i = 1 := by omega
    · exact h.write hp
    · obtain rfl : Point.print = p := h.reader.symm.trans hp
      exact h.print

theorem CountInv.step {d : Turn} (h : CountInv w a) (hstep : a.step d = some b) :
    CountInv w b := by
  cases d with
  | tick =>
    cases hstep
    exact ⟨h.writer, h.reader, h.counter, h.printed, h.sorted⟩
  | instr n =>
    obtain ⟨i, -, rfl⟩ := Option.map_eq_some_iff.mp hstep
    exact h.instr

/-- The values count the increments unless one of them was printed before the first store. -/
theorem CountInv.counts_iff (h : CountInv w a) :
    Counts a.stored a.printed ↔ w = 0 ∨ ∀ p ∈ a.printed, p.stored ≠ 0 := by
  constructor
  · intro hcounts
    by_contra hnot
    obtain ⟨hw, hearly⟩ := not_or.mp hnot
    push Not at hearly
    obtain ⟨p, hp, hzero⟩ := hearly
    have hcount := hcounts.value p hp
    rw [(h.printed p hp).2, countedFrom, if_pos hzero, hzero] at hcount
    exact hw hcount
  · intro hcond
    have hvalue : ∀ p ∈ a.printed, p.value = BitVec.ofNat 32 (p.stored - 1) := by
      intro p hp
      rw [(h.printed p hp).2, countedFrom]
      split
      · next hzero =>
        rcases hcond with rfl | hall
        · rw [hzero]
          rfl
        · exact absurd hzero (hall p hp)
      · rfl
    refine ⟨hvalue, fun hlt => ?_⟩
    refine h.sorted.imp_of_mem fun hp hq hle => ?_
    have hp' := (h.printed _ hp).1
    have hq' := (h.printed _ hq).1
    rw [hvalue _ hp, hvalue _ hq, BitVec.toNat_ofNat, BitVec.toNat_ofNat]
    omega

/-! ## The race -/

/-- Does task 2 get as far as its system call before task 1 stores its zero? `i` is the task
that runs, and `lead j` instructions of task `j` come before its first access. The schedule
says of each event whether it is a tick. -/
def overtakes (i : Fin 2) (lead : Fin 2 → Nat) : List Bool → Bool
  | [] => false
  | true :: es => overtakes i.rev lead es
  | false :: es =>
    match lead i with
    | 0 => i.val == 1
    | n + 1 => overtakes i (Function.update lead i n) es

/-- Neither task has accessed the counter. -/
structure Racing (a : Tasks) (i : Fin 2) (lead : Fin 2 → Nat) : Prop where
  current : a.current = some i
  todo : ∀ j, a.todo j = (taskFunction j, lead j)
  stored : a.stored = 0
  printed : a.printed = []

theorem Racing.tick (h : Racing a i lead) :
    Racing { a with current := some (nextOf a.current) } i.rev lead := by
  refine ⟨?_, h.todo, h.stored, h.printed⟩
  rw [h.current]
  rfl

theorem Racing.own (h : Racing a i lead) (n : Nat) :
    Racing (a.own i (taskFunction i) n) i (Function.update lead i n) := by
  refine ⟨h.current, fun j => ?_, h.stored, h.printed⟩
  by_cases hj : j = i
  · subst hj
    rw [todo_own, Function.update_self]
  · rw [todo_own_of_ne hj, Function.update_of_ne hj, h.todo]

/-- The record only grows. -/
theorem printed_of_step {d : Turn} (hstep : a.step d = some b) :
    a.stored ≤ b.stored ∧ a.printed ⊆ b.printed ∧
      ∀ p ∈ b.printed, p ∈ a.printed ∨ p.stored = a.stored := by
  cases d with
  | tick =>
    cases hstep
    exact ⟨le_rfl, List.Subset.refl _, fun p hp => .inl hp⟩
  | instr n =>
    obtain ⟨i, -, rfl⟩ := Option.map_eq_some_iff.mp hstep
    unfold instr
    split
    · exact ⟨le_rfl, List.Subset.refl _, fun p hp => .inl hp⟩
    · next q _ =>
      refine ⟨?_, ?_, ?_⟩
      · simp only [access]
        split <;> omega
      · simp only [access]
        split
        · exact List.subset_append_left _ _
        · exact List.Subset.refl _
      · intro p hp
        simp only [access] at hp
        split at hp
        · rcases List.mem_append.mp hp with hp | hp
          · exact .inl hp
          · exact .inr (by rw [List.mem_singleton.mp hp])
        · exact .inl hp

/-- After the first store no value is printed too early. -/
theorem printed_of_run (hrun : Lts.run step a ds = some b) :
    a.printed ⊆ b.printed ∧
      (a.stored ≠ 0 → (∀ p ∈ a.printed, p.stored ≠ 0) → ∀ p ∈ b.printed, p.stored ≠ 0) := by
  induction ds generalizing a with
  | nil =>
    rw [Lts.run_nil.mp hrun]
    exact ⟨List.Subset.refl _, fun _ h => h⟩
  | cons d ds ih =>
    obtain ⟨u, hstep, hrest⟩ := Lts.run_cons.mp hrun
    obtain ⟨hle, hsub, hnew⟩ := printed_of_step hstep
    obtain ⟨hsub', hlater⟩ := ih hrest
    refine ⟨List.Subset.trans hsub hsub', fun hstored hall => hlater (by omega) fun p hp => ?_⟩
    rcases hnew p hp with hp | hp
    · exact hall p hp
    · rw [hp]
      exact hstored

/-- The schedule decides whether a value is printed too early. -/
theorem Racing.run (h : Racing a i lead) (hrun : Lts.run step a ds = some b) :
    (∀ p ∈ b.printed, p.stored ≠ 0) ↔ overtakes i lead (ds.map Turn.isTick) = false := by
  induction ds generalizing a i lead with
  | nil =>
    rw [← Lts.run_nil.mp hrun, h.printed]
    simp [overtakes]
  | cons d ds ih =>
    obtain ⟨u, hstep, hrest⟩ := Lts.run_cons.mp hrun
    cases d with
    | tick =>
      cases hstep
      exact ih h.tick hrest
    | instr m =>
      rw [step, h.current, Option.map_some] at hstep
      obtain rfl := Option.some.inj hstep
      have htodo := h.todo i
      simp only [List.map_cons, Turn.isTick, overtakes]
      cases hlead : lead i with
      | succ n =>
        rw [hlead] at htodo
        rw [instr_own htodo] at hrest
        exact ih (h.own n) hrest
      | zero =>
        rw [hlead] at htodo
        rw [instr_access htodo] at hrest
        obtain rfl | rfl : i = 0 ∨ i = 1 := by omega
        · have hprinted : (a.access 0 (taskFunction 0) m).printed = [] := h.printed
          have hlater := (printed_of_run hrest).2 (Nat.succ_ne_zero _) (by simp [hprinted])
          exact ⟨fun _ => rfl, fun _ => hlater⟩
        · have hmem : (⟨a.counter, a.stored⟩ : Print) ∈ (a.access 1 .print m).printed := by
            rw [printed_access_print]
            exact List.mem_append_right _ (List.mem_singleton_self _)
          constructor
          · intro hall
            exact absurd h.stored (hall _ ((printed_of_run hrest).1 hmem))
          · intro hfalse
            cases hfalse

theorem racing_start (lead : Fin 2 → Nat) (w : Word) :
    Racing { start lead w with current := some (nextOf none) } 0 lead :=
  ⟨rfl, fun _ => rfl, rfl, rfl⟩

/-- From the first tick on, under every schedule. -/
theorem counts_iff_of_run {ds : List Turn}
    (hrun : Lts.run step (start lead w) (.tick :: ds) = some a) :
    Counts a.stored a.printed ↔
      w = 0 ∨ overtakes 0 lead (ds.map Turn.isTick) = false := by
  have hinv : CountInv w a :=
    Lts.run_invariant (fun _ _ _ h hstep => h.step hstep) (.start lead w) hrun
  obtain ⟨u, hfirst, hrest⟩ := Lts.run_cons.mp hrun
  obtain rfl := Option.some.inj hfirst
  rw [hinv.counts_iff, (racing_start lead w).run hrest]

end Tasks

end SecOS
