-- SUMMARY: An abstract round robin: processes that run in turn, and whose registers wait for them unchanged.
import SecOS.Base.Lts
import Mathlib.Logic.Function.Iterate

/-!
# Round robin

One process runs at a time. A tick hands the processor to the next one, which goes on
with the registers it had, or starts when it has not run before.
-/

namespace RoundRobin

/-- `regs` holds the registers of every process that has run, those of the running one
included. -/
structure State (P R : Type*) where
  current : Option P
  regs : P → Option R

inductive Label (P R : Type*) where
  /-- The running process changes its registers. -/
  | compute (f : R → R)
  /-- The next process runs; `start` has the registers for one that starts. -/
  | tick (start : P → R)

variable {P R : Type*}

def Label.isTick : Label P R → Bool
  | .compute _ => false
  | .tick _ => true

/-- Nothing has run. -/
def State.init : State P R := ⟨none, fun _ => none⟩

variable [DecidableEq P] (next : Option P → P)

def State.compute (a : State P R) (f : R → R) : State P R where
  current := a.current
  regs p := if a.current = some p then (a.regs p).map f else a.regs p

def State.tick (a : State P R) (start : P → R) : State P R where
  current := some (next a.current)
  regs p := if next a.current = p then some ((a.regs p).getD (start p)) else a.regs p

def step (a : State P R) : Label P R → Option (State P R)
  | .compute f => some (a.compute f)
  | .tick start => some (a.tick next start)

/-- Who runs after one more tick. -/
def turn (c : Option P) : Option P := some (next c)

section Run

variable {next} {a b : State P R} {d : Label P R} {ds : List (Label P R)} {p : P} {r : R}

theorem current_of_step (h : step next a d = some b) :
    b.current = (turn next)^[if d.isTick then 1 else 0] a.current := by
  cases d with
  | compute f => cases h; rfl
  | tick start => cases h; rfl

/-- Who runs depends on the number of ticks alone. -/
theorem current_of_run (h : Lts.run (step next) a ds = some b) :
    b.current = (turn next)^[ds.countP Label.isTick] a.current := by
  induction ds generalizing a with
  | nil => rw [Lts.run_nil.mp h]; rfl
  | cons d ds ih =>
    obtain ⟨u, hstep, hrest⟩ := Lts.run_cons.mp h
    rw [ih hrest, current_of_step hstep, ← Function.iterate_add_apply, List.countP_cons]

/-- A process that runs neither before nor after a step keeps its registers. -/
theorem regs_of_step (h : step next a d = some b) (ha : a.current ≠ some p)
    (hb : b.current ≠ some p) : b.regs p = a.regs p := by
  cases d with
  | compute f =>
    cases h
    exact if_neg ha
  | tick start =>
    cases h
    exact if_neg fun hp => hb (congrArg some hp)

/-- Registers wait unchanged as long as it is others' turn. -/
theorem regs_of_run (h : Lts.run (step next) a ds = some b)
    (hturn : ∀ k ≤ ds.countP Label.isTick, (turn next)^[k] a.current ≠ some p) :
    b.regs p = a.regs p := by
  induction ds generalizing a with
  | nil => rw [Lts.run_nil.mp h]
  | cons d ds ih =>
    obtain ⟨u, hstep, hrest⟩ := Lts.run_cons.mp h
    have hu := current_of_step hstep
    rw [List.countP_cons] at hturn
    have hlater : ∀ k ≤ ds.countP Label.isTick, (turn next)^[k] u.current ≠ some p := by
      intro k hk
      rw [hu, ← Function.iterate_add_apply]
      exact hturn _ (by omega)
    rw [ih hrest hlater, regs_of_step hstep (hturn 0 (Nat.zero_le _)) (hlater 0 (Nat.zero_le _))]

/-- After a tick a process has the registers it had, or those of its start. -/
theorem regs_of_tick {start : P → R} (h : (a.tick next start).regs p = some r) :
    a.regs p = some r ∨ a.regs p = none ∧ r = start p := by
  unfold State.tick at h
  simp only at h
  split at h
  · cases hp : a.regs p with
    | none =>
      rw [hp] at h
      exact .inr ⟨rfl, (Option.some.inj h).symm⟩
    | some r' =>
      rw [hp] at h
      exact .inl h
  · exact .inl h

/-- A process that has run goes on as it was left. -/
theorem regs_tick (start : P → R) (h : a.regs p = some r) :
    (a.tick next start).regs p = some r := by
  unfold State.tick
  simp only [h]
  split
  · rfl
  · rfl

end Run

end RoundRobin
