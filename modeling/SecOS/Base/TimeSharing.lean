-- SUMMARY: Processes that run in turn with memory of their own and one shared store, and what a process can learn of the others.
import SecOS.Base.RoundRobin

/-!
# Time sharing

The round robin with memory: a step of the running process depends on its registers, its
own memory and the shared store, and changes nothing else. So a process is a function of
the registers it starts with and of what it finds in the shared store.
-/

namespace TimeSharing

/-- `own` is the memory of each process. -/
structure State (P R L S : Type*) extends RoundRobin.State P R where
  own : P → L
  shared : S

inductive Label (P R L S : Type*) where
  /-- The running process takes a step. -/
  | compute (f : P → R × L × S → R × L × S)
  /-- Nothing that a process could notice. -/
  | idle
  | tick (start : P → R)

/-- What reaches a process from outside. -/
inductive Input (R S : Type*) where
  /-- It starts, with these registers. -/
  | start (r : R)
  /-- It takes a step with this in the shared store. -/
  | sees (s : S)

variable {P R L S : Type*}

variable [DecidableEq P] (next : Option P → P)

namespace State

def compute (a : State P R L S) (f : P → R × L × S → R × L × S) : State P R L S :=
  match a.current with
  | none => a
  | some p =>
    match a.regs p with
    | none => a
    | some r =>
      let y := f p (r, a.own p, a.shared)
      { current := some p
        regs := Function.update a.regs p (some y.1)
        own := Function.update a.own p y.2.1
        shared := y.2.2 }

def tick (a : State P R L S) (start : P → R) : State P R L S :=
  { a with toState := a.toState.tick next start }

def take (a : State P R L S) : Label P R L S → State P R L S
  | .compute f => a.compute f
  | .idle => a
  | .tick start => a.tick next start

end State

def step (a : State P R L S) (d : Label P R L S) : Option (State P R L S) := some (a.take next d)

/-- What process `p` gets from outside with a label. -/
def input (p : P) (a : State P R L S) : Label P R L S → List (Input R S)
  | .compute _ => if a.current = some p then [.sees a.shared] else []
  | .idle => []
  | .tick start => if next a.current = p ∧ (a.regs p).isNone then [.start (start p)] else []

/-- What it gets in a run. -/
def inputs (p : P) : State P R L S → List (Label P R L S) → List (Input R S)
  | _, [] => []
  | a, d :: ds => input next p a d ++ inputs p (a.take next d) ds

/-- When it is a step of process `p`, it is one of its program `g`. -/
def Complies (g : R × L × S → R × L × S) (p : P) (a : State P R L S) (d : Label P R L S) : Prop :=
  ∀ f r, d = .compute f → a.current = some p → a.regs p = some r →
    f p (r, a.own p, a.shared) = g (r, a.own p, a.shared)

/-- Process `p` does what `g` says throughout a run. -/
def Obeys (g : R × L × S → R × L × S) (p : P) : State P R L S → List (Label P R L S) → Prop
  | _, [] => True
  | a, d :: ds => Complies g p a d ∧ Obeys g p (a.take next d) ds

section Run

variable {next} {a b : State P R L S} {d : Label P R L S} {ds : List (Label P R L S)} {p : P}
  {f : P → R × L × S → R × L × S} {g : R × L × S → R × L × S}

theorem compute_of_running {r : R} (hcur : a.current = some p) (hr : a.regs p = some r) :
    a.compute f =
      { current := some p
        regs := Function.update a.regs p (some (f p (r, a.own p, a.shared)).1)
        own := Function.update a.own p (f p (r, a.own p, a.shared)).2.1
        shared := (f p (r, a.own p, a.shared)).2.2 } := by
  simp only [State.compute, hcur, hr]

theorem own_compute {r : R} (hcur : a.current = some p) (hr : a.regs p = some r) :
    (a.compute f).own = Function.update a.own p (f p (r, a.own p, a.shared)).2.1 := by
  rw [compute_of_running hcur hr]

theorem shared_compute {r : R} (hcur : a.current = some p) (hr : a.regs p = some r) :
    (a.compute f).shared = (f p (r, a.own p, a.shared)).2.2 := by
  rw [compute_of_running hcur hr]

/-- On its registers a step is one of the round robin. -/
theorem toState_compute {k : R → R} (hcur : a.current = some p)
    (hk : ∀ r, a.regs p = some r → (f p (r, a.own p, a.shared)).1 = k r) :
    (a.compute f).toState = a.toState.compute k := by
  have hregs : (a.toState.compute k).regs
      = fun q => if q = p then (a.regs p).map k else a.regs q := by
    funext q
    unfold RoundRobin.State.compute
    simp only [hcur, Option.some.injEq]
    by_cases hq : p = q
    · subst hq
      simp
    · rw [if_neg hq, if_neg (Ne.symm hq)]
  cases hr : a.regs p with
  | none =>
    have hsame : a.compute f = a := by simp only [State.compute, hcur, hr]
    rw [hsame]
    have hregs' : (a.toState.compute k).regs = a.regs := by
      rw [hregs]
      funext q
      split
      · next hq => rw [hq, hr, Option.map_none]
      · rfl
    calc a.toState = ⟨a.current, a.regs⟩ := rfl
      _ = ⟨a.current, (a.toState.compute k).regs⟩ := by rw [hregs']
  | some r =>
    rw [compute_of_running hcur hr]
    have hregs' : (a.toState.compute k).regs = Function.update a.regs p (some (k r)) := by
      rw [hregs, hr]
      funext q
      rw [Function.update_apply, Option.map_some]
    calc (⟨some p, Function.update a.regs p (some (f p (r, a.own p, a.shared)).1)⟩ :
          RoundRobin.State P R)
        = ⟨a.current, (a.toState.compute k).regs⟩ := by rw [hk r hr, hregs', hcur]

end Run

end TimeSharing
