-- SUMMARY: Which of the events that can come in a run the kernel gets through, and which end in a fault of its own.
import SecOS.Exam.Confidentiality

/-!
# Events that are served

The handlers run on whatever the task has left in DS and ES, and the one of the system
call follows the task's pointer. What the processor lets happen in a state of a run comes
to its `iret` exactly when these are fit for use.
-/

namespace SecOS

open X86

namespace Machine

variable {img : Image} {σ : Scratch} {s : Machine} {cur : Option (Fin 2)} {i : Fin 2}

/-- What can come while the tasks run, whatever the kernel then makes of it: an instruction
of level 3 that raises nothing, `int $0x80`, or a request of a device. -/
def Offered (s : Machine) : Event → Prop
  | .user u => (s.user u).isSome = true
  | .int n _ => n = 0x80 ∧ s.cpu.cpl = 3
  | .fault .. => False
  | .portOut port bs _ =>
    s.cpu.cpl = 3 ∧ bs.length ∈ [1, 2, 4] ∧ s.ioPermitted port.toNat bs.length = true
  | .portIn port width value _ =>
    s.cpu.cpl = 3 ∧ width ∈ [1, 2, 4] ∧ s.ioPermitted port.toNat width = true ∧
      (s.ins port width value).isSome = true
  | .irq n _ => Requested s n

/-- The segment registers that the handler uses can be used, and so can the pointer it is
given. -/
def Bearable (s : Machine) : Event → Prop
  | .irq n _ => if n = 0 then s.clockUsable = true else s.dataUsable = true
  | .int .. => s.dataUsable = true ∧
      ∀ k < 4, (walk s.mem s.cpu.cr3 (s.cpu.eax + BitVec.ofNat 32 k)).isSome = true
  | _ => True

/-- The handler of a system call can read its word when the four bytes are mapped. -/
theorem exists_syscallRead (h : Inv img s (some i)) :
    (∃ v, s.afterInt.syscallRead img σ = some v) ↔
      ∀ k < 4, (walk s.mem s.cpu.cr3 (s.cpu.eax + BitVec.ofNat 32 k)).isSome = true := by
  have hm : UserMode s.afterInt i := UserMode.afterInt h.mode
  have ht : TablesOk s.afterInt.mem := h.kernel.tables
  have hcr3 : s.cpu.cr3 = pgdOf i := UserMode.cr3 h.mode
  have hbyte (k : Nat) :
      (∃ b, readByte (s.afterInt.syscallMem img σ) (pgdOf i) (s.cpu.eax + BitVec.ofNat 32 k)
        = some b) ↔ (walk s.mem (pgdOf i) (s.cpu.eax + BitVec.ofNat 32 k)).isSome = true := by
    rw [← Option.isSome_iff_exists]
    have hread : readByte (syscallMem img σ (s.afterInt.withMem s.afterInt.mem)) (pgdOf i)
        (s.cpu.eax + BitVec.ofNat 32 k) = _ := readByte_syscallMem hm ht ht
    rw [show s.afterInt.withMem s.afterInt.mem = s.afterInt from rfl] at hread
    rw [hread, Option.isSome_map]
    rfl
  rw [hcr3, ← forall₂_congr fun k _ => hbyte k, ← readLinear_eq_some, ← hcr3]
  rfl

/-- An event that is offered has a successor exactly when it is bearable. -/
theorem exists_step_iff (h : Inv img s cur) {e : Event} (hoffered : Offered s e) :
    (∃ s', step img s e = some s') ↔ Bearable s e := by
  cases e with
  | user u => exact ⟨fun _ => trivial, fun _ => Option.isSome_iff_exists.mp hoffered⟩
  | fault v err cr2 σ => exact hoffered.elim
  | portOut port bs σ =>
    obtain ⟨hcpl, hlen, hok⟩ := hoffered
    refine ⟨fun _ => trivial, fun _ => ⟨s.outs port bs, ?_⟩⟩
    rw [step, portOut, if_neg (by tauto), if_pos hok]
  | portIn port width value σ =>
    obtain ⟨hcpl, hwidth, hok, hins⟩ := hoffered
    obtain ⟨s', hs'⟩ := Option.isSome_iff_exists.mp hins
    refine ⟨fun _ => trivial, fun _ => ⟨s', ?_⟩⟩
    rw [step, portIn, if_neg (by tauto), if_pos hok, hs']
  | int n σ =>
    obtain ⟨rfl, hcpl⟩ := hoffered
    obtain ⟨i, rfl, -⟩ := h.mode.task_of_cpl hcpl
    rw [step_syscall h, Bearable, ← exists_syscallRead (σ := σ) h]
    by_cases hdata : s.dataUsable = true
    · simp [hdata, Option.map_eq_some_iff]
    · simp [hdata]
  | irq n σ =>
    obtain ⟨⟨hlt, hne⟩, hfree⟩ := h.requested.mp hoffered
    by_cases h0 : n = 0
    · subst h0
      rw [step_irq_zero h, Bearable, if_pos rfl]
      simp [hfree]
    · obtain ⟨out, hstep⟩ := step_irq_device (σ := σ) h ⟨by omega, hlt, hne⟩ hfree
      rw [hstep, Bearable, if_neg h0]
      simp

/-- A schedule of offered events comes through exactly when all of them are bearable where
they come. -/
theorem exists_run_iff {es : List Event} (h : Inv img s cur) (hes : ∀ e ∈ es, SparesPics e)
    (hoffered : Lts.Along (step img) Offered s es) :
    (∃ s', Lts.run (step img) s es = some s') ↔ Lts.Along (step img) Bearable s es :=
  Lts.exists_run_iff_along (I := fun s => ∃ cur, Inv img s cur)
    (fun _ _ _ ⟨_, hinv⟩ hspare hstep => ⟨_, (effect_of_step hinv hstep).inv hinv hspare⟩)
    (fun _ _ ⟨_, hinv⟩ hoffered => exists_step_iff hinv hoffered) ⟨cur, h⟩ hes hoffered

end Machine

end SecOS
