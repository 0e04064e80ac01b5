-- SUMMARY: Preemption is never lost: in every state of a run the next clock interrupt can be delivered.
import SecOS.Exam.Sample

/-!
# Preemption

The interrupt flag and the in-service bits are touched by every entry stub, by both
branches of the clock handler and by each return. No path leaves interrupts off, gives
level 3 the right to turn them off, or forgets an end of interrupt.
-/

namespace SecOS

open X86

namespace Machine

variable {img : Image} {s s' s₀ : Machine} {cur : Option (Fin 2)}

/-- Not an instruction of level 3 that accesses a port. -/
def NoPortAccess : Event → Prop
  | .portOut .. => False
  | .portIn .. => False
  | _ => True

theorem NoPortAccess.sparesPics {e : Event} (h : NoPortAccess e) : SparesPics e := by
  cases e with
  | portOut port bs σ => exact h.elim
  | _ => trivial

/-- The privilege level for ports is 0. -/
theorem Mode.iopl (h : Mode img s cur) : field s.cpu.eflags 12 2 = 0 := by
  have hand : s.cpu.eflags &&& Eflags.iopl = 0 :=
    (Eflags.and_of_and h.flags (by decide)).trans (by decide)
  have hbit (k : Nat) (hk : Eflags.iopl.getLsbD k = true) : s.cpu.eflags.getLsbD k = false := by
    have hk' := congrArg (fun w => w.getLsbD k) hand
    simpa [hk] using hk'
  apply BitVec.eq_of_getLsbD_eq
  intro i hi
  rw [getLsbD_field]
  interval_cases i
  · simpa using hbit 12 rfl
  · simpa using hbit 13 rfl

/-- What it takes for the next tick to come through. -/
structure Preemptible (s : Machine) : Prop where
  intrFlag : s.cpu.intrFlag = true
  iopl : field s.cpu.eflags 12 2 = 0
  idle : s.pics.Idle
  deliverable : (s.irq 0).isSome = true

theorem Inv.preemptible (h : Inv img s cur) (hquiet : Quiet s.pics)
    (hfree : blockedLine s.pics 0 = false) : Preemptible s where
  intrFlag := h.mode.intrFlag
  iopl := h.mode.iopl
  idle := hquiet.idle
  deliverable := by rw [irq_zero h hfree]; rfl

/-- Without port accesses the controllers come out of every run as they went in. -/
theorem pics_eq_of_run {es : List Event} (h : Inv img s₀ cur) (hquiet : Quiet s₀.pics)
    (hes : ∀ e ∈ es, NoPortAccess e) (hrun : Lts.run (step img) s₀ es = some s) :
    s.pics = s₀.pics := by
  induction es generalizing s₀ cur with
  | nil => rw [Lts.run_nil.mp hrun]
  | cons e es ih =>
    obtain ⟨u, hstep, hrest⟩ := Lts.run_cons.mp hrun
    have heff := effect_of_step h hstep
    have he := hes e (List.mem_cons_self ..)
    have hport : ∀ port bs σ, e ≠ .portOut port bs σ := by
      rintro port bs σ rfl
      exact he
    have hsame := heff.pics_eq h hquiet hport
    rw [ih (heff.inv h he.sparesPics) (hsame.symm ▸ hquiet)
      (fun e' he' => hes e' (List.mem_cons_of_mem _ he')) hrest, hsame]

/-! ## Polls -/

/-- Level 3 sends no poll command to an interrupt controller. -/
def SparesPolls : Event → Prop
  | .portOut port bs _ =>
    ∀ k b, bs[k]? = some b → port + BitVec.ofNat 16 k = pic1 ∨ port + BitVec.ofNat 16 k = pic2 →
      isPoll b = false
  | _ => True

/-- Without polls nothing is in service when a handler has returned. -/
theorem Effect.quiet {e : Event} (he : Effect img s cur e s') (h : Inv img s cur)
    (hquiet : Quiet s.pics) (hspare : SparesPics e) (hpolls : SparesPolls e) : Quiet s'.pics := by
  by_cases hport : ∃ port bs σ, e = .portOut port bs σ
  · obtain ⟨port, bs, σ, rfl⟩ := hport
    cases he with
    | portOut hcur hok =>
      have hboth : Serviceable (s.outs port bs).pics ∧ Quiet (s.outs port bs).pics :=
        pics_outs (P := fun p => Serviceable p ∧ Quiet p)
          (Q := fun port b => port = pic1 ∨ port = pic2 → b.getLsbD 4 = false ∧ isPoll b = false)
          (fun _ _ _ hp hv => ⟨hp.1.out fun hb => (hv hb).1, hp.2.out hp.1 hv⟩) ⟨h.pics, hquiet⟩
          fun k b hb hcommand => ⟨hspare k b hb hcommand, hpolls k b hb hcommand⟩
      exact hboth.2
  · rw [he.pics_eq h hquiet fun port bs σ heq => hport ⟨port, bs, σ, heq⟩]
    exact hquiet

theorem quiet_of_run {es : List Event} (h : Inv img s₀ cur) (hquiet : Quiet s₀.pics)
    (hes : ∀ e ∈ es, SparesPics e ∧ SparesPolls e)
    (hrun : Lts.run (step img) s₀ es = some s) : Quiet s.pics := by
  induction es generalizing s₀ cur with
  | nil => exact Lts.run_nil.mp hrun ▸ hquiet
  | cons e es ih =>
    obtain ⟨u, hstep, hrest⟩ := Lts.run_cons.mp hrun
    have heff := effect_of_step h hstep
    obtain ⟨hspare, hpolls⟩ := hes e (List.mem_cons_self ..)
    exact ih (heff.inv h hspare) (heff.quiet h hquiet hspare hpolls)
      (fun e' he' => hes e' (List.mem_cons_of_mem _ he')) hrest

/-! ## Over runs -/

/-- From the boot, whatever level 3 executes short of port accesses, and in whatever order
interrupts arrive. -/
theorem preemptible_of_run {es : List Event} (hboot : Booted img s₀)
    (hes : ∀ e ∈ es, NoPortAccess e) (hrun : Lts.run (step img) s₀ es = some s) :
    Preemptible s := by
  have hpics : s.pics = picsReady :=
    (pics_eq_of_run hboot.inv hboot.quiet hes hrun).trans hboot.pics
  have hinv := hboot.inv_run (fun e he => (hes e he).sparesPics) hrun
  exact hinv.preemptible (hpics.symm ▸ quiet_picsReady) (hpics.symm ▸ rfl)

theorem preemptible_sampleTask : Preemptible sampleTask :=
  preemptible_of_run booted_sample (by simp [NoPortAccess]) run_sampleTask

end Machine

end SecOS
