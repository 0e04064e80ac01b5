-- SUMMARY: Labelled transition systems given by a partial step function: runs, invariants, and forward simulation.
import Mathlib.Data.List.Forall2
import Mathlib.Data.List.Induction

/-!
# Transition systems

A system is a partial step function `step : σ → ε → Option σ`. An event that is
not enabled in a state has no successor there. A run is a list of events, every
one of which was enabled when it came.
-/

namespace Lts

variable {σ ε τ δ : Type*}

/-- Take the events one after another. -/
def run (step : σ → ε → Option σ) : σ → List ε → Option σ
  | s, [] => some s
  | s, e :: es => (step s e).bind fun s' => run step s' es

section Run

variable {step : σ → ε → Option σ} {s t u : σ} {e : ε} {es fs : List ε}

@[simp] theorem run_nil : run step s [] = some t ↔ s = t := by simp [run]

theorem run_cons :
    run step s (e :: es) = some t ↔ ∃ u, step s e = some u ∧ run step u es = some t := by
  simp [run, Option.bind_eq_some_iff]

theorem run_append :
    run step s (es ++ fs) = some t ↔ ∃ u, run step s es = some u ∧ run step u fs = some t := by
  induction es generalizing s with
  | nil => simp
  | cons e es ih =>
    simp only [List.cons_append, run_cons, ih]
    constructor
    · rintro ⟨u, hstep, v, hes, hfs⟩
      exact ⟨v, ⟨u, hstep, hes⟩, hfs⟩
    · rintro ⟨v, ⟨u, hstep, hes⟩, hfs⟩
      exact ⟨u, hstep, v, hes, hfs⟩

theorem run_snoc :
    run step s (es ++ [e]) = some t ↔ ∃ u, run step s es = some u ∧ step u e = some t := by
  simp [run_append, run_cons]

end Run

/-! ## Invariants -/

section Invariant

variable {step : σ → ε → Option σ} {Inv : σ → Prop} {Ok : ε → Prop} {s t : σ} {es : List ε}

/-- What every permitted event preserves holds at the end of a run of permitted
events. -/
theorem run_invariant_of
    (hstep : ∀ s e s', Inv s → Ok e → step s e = some s' → Inv s')
    (hs : Inv s) (hok : ∀ e ∈ es, Ok e) (hrun : run step s es = some t) : Inv t := by
  induction es generalizing s with
  | nil => simpa using (run_nil.mp hrun) ▸ hs
  | cons e es ih =>
    obtain ⟨u, hu, hrest⟩ := run_cons.mp hrun
    have hInv : Inv u := hstep s e u hs (hok e (List.mem_cons_self ..)) hu
    exact ih hInv (fun e' he' => hok e' (List.mem_cons_of_mem _ he')) hrest

theorem run_invariant (hstep : ∀ s e s', Inv s → step s e = some s' → Inv s')
    (hs : Inv s) (hrun : run step s es = some t) : Inv t :=
  run_invariant_of (fun s e s' h (_ : True) => hstep s e s' h) hs (fun _ _ => trivial) hrun

/-- `C` holds of every event in the state where it comes, as far as the system gets. -/
def Along (step : σ → ε → Option σ) (C : σ → ε → Prop) (s : σ) (es : List ε) : Prop :=
  ∀ pre e post u, es = pre ++ e :: post → run step s pre = some u → C u e

end Invariant

/-! ## Schedules -/

section Schedule

variable {step : σ → ε → Option σ} {C : σ → ε → Prop} {s : σ} {e : ε} {es : List ε}

@[simp] theorem along_nil : Along step C s [] := by
  intro pre e post u hsplit
  simp at hsplit

theorem along_cons :
    Along step C s (e :: es) ↔ C s e ∧ ∀ u, step s e = some u → Along step C u es := by
  constructor
  · intro h
    refine ⟨h [] e es s rfl (run_nil.mpr rfl), fun u hu pre e' post v hsplit hpre => ?_⟩
    exact h (e :: pre) e' post v (by rw [hsplit, List.cons_append]) (run_cons.mpr ⟨u, hu, hpre⟩)
  · rintro ⟨he, hes⟩ pre e' post v hsplit hpre
    cases pre with
    | nil =>
      obtain ⟨rfl, -⟩ := List.cons_eq_cons.mp hsplit
      exact run_nil.mp hpre ▸ he
    | cons e'' pre =>
      obtain ⟨rfl, hrest⟩ := List.cons_eq_cons.mp hsplit
      obtain ⟨u, hu, hv⟩ := run_cons.mp hpre
      exact hes u hu pre e' post v hrest hv

/-- Where an event that is offered has a successor exactly when `C` holds of it, a schedule
of offered events has a run exactly when `C` holds all along it. -/
theorem exists_run_iff_along {I : σ → Prop} {Ok : ε → Prop} {Offered : σ → ε → Prop}
    (hinv : ∀ s e s', I s → Ok e → step s e = some s' → I s')
    (hserved : ∀ s e, I s → Offered s e → ((∃ s', step s e = some s') ↔ C s e))
    (hs : I s) (hok : ∀ e ∈ es, Ok e) (hoffered : Along step Offered s es) :
    (∃ t, run step s es = some t) ↔ Along step C s es := by
  induction es generalizing s with
  | nil => exact ⟨fun _ => along_nil, fun _ => ⟨s, run_nil.mpr rfl⟩⟩
  | cons e es ih =>
    obtain ⟨he, hes⟩ := along_cons.mp hoffered
    have hnext (u : σ) (hu : step s e = some u) :
        (∃ t, run step u es = some t) ↔ Along step C u es :=
      ih (hinv s e u hs (hok e (List.mem_cons_self ..)) hu)
        (fun e' he' => hok e' (List.mem_cons_of_mem _ he')) (hes u hu)
    rw [along_cons, ← hserved s e hs he]
    constructor
    · rintro ⟨t, hrun⟩
      obtain ⟨u, hu, hrest⟩ := run_cons.mp hrun
      refine ⟨⟨u, hu⟩, fun v hv => ?_⟩
      obtain rfl : u = v := Option.some.inj (hu.symm.trans hv)
      exact (hnext u hu).mp ⟨t, hrest⟩
    · rintro ⟨⟨u, hu⟩, hall⟩
      obtain ⟨t, hrest⟩ := (hnext u hu).mpr (hall u hu)
      exact ⟨t, run_cons.mpr ⟨u, hu, hrest⟩⟩

theorem Along.forall_mem {P : ε → Prop} {t : σ} (h : Along step C s es)
    (hrun : run step s es = some t) (hP : ∀ s e, C s e → P e) : ∀ e ∈ es, P e := by
  intro e he
  obtain ⟨pre, post, hsplit⟩ := List.append_of_mem he
  rw [hsplit] at hrun
  obtain ⟨u, hpre, -⟩ := run_append.mp hrun
  exact hP u e (h pre e post u hsplit hpre)

end Schedule

/-! ## Forward simulation -/

/-- Every permitted step of the concrete system from related states is matched by one
step of the abstract system, and the two labels are related. -/
def Simulates (cstep : σ → ε → Option σ) (astep : τ → δ → Option τ) (Ok : ε → Prop)
    (L : ε → δ → Prop) (R : σ → τ → Prop) : Prop :=
  ∀ s t e s', R s t → Ok e → cstep s e = some s' → ∃ d t', L e d ∧ astep t d = some t' ∧ R s' t'

theorem Simulates.run {cstep : σ → ε → Option σ} {astep : τ → δ → Option τ} {Ok : ε → Prop}
    {L : ε → δ → Prop} {R : σ → τ → Prop} (hsim : Simulates cstep astep Ok L R)
    {s s' : σ} {t : τ} {es : List ε} (hR : R s t) (hok : ∀ e ∈ es, Ok e)
    (hrun : Lts.run cstep s es = some s') :
    ∃ ds t', List.Forall₂ L es ds ∧ Lts.run astep t ds = some t' ∧ R s' t' := by
  induction es generalizing s t with
  | nil => exact ⟨[], t, .nil, run_nil.mpr rfl, run_nil.mp hrun ▸ hR⟩
  | cons e es ih =>
    obtain ⟨u, hu, hrest⟩ := run_cons.mp hrun
    obtain ⟨d, v, hL, hv, hRv⟩ := hsim s t e u hR (hok e (List.mem_cons_self ..)) hu
    obtain ⟨ds, t', hLs, hds, hR'⟩ :=
      ih hRv (fun e' he' => hok e' (List.mem_cons_of_mem _ he')) hrest
    exact ⟨d :: ds, t', .cons hL hLs, run_cons.mpr ⟨v, hv, hds⟩, hR'⟩

end Lts
