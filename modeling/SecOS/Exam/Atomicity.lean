-- SUMMARY: Handlers are atomic: when requests may come at every instruction boundary, the machine still runs them one after another.
import SecOS.Exam.KernelContext

/-!
# Atomicity

The runs of `step` take each handler in one piece. With requests accepted at every
instruction boundary the kernel is interrupted only while it starts a task; but for that,
what level 3 sees of such a run is a run of `step`. The control flow of the kernel's code
decides it: from the entry of a handler there is one way to its `iret`, with one call of a
C function on it.
-/

namespace SecOS

open X86

/-! ## Control flow -/

def Instr.isCall : Instr → Bool
  | .call _ => true
  | _ => false

namespace Pc

/-- Where the kernel may be after an instruction that is not the `iret` of a handler. -/
def succs (pc : Pc) : Instr → List Pc
  | .jmp l => [l]
  | .call .clockInterruptHandler => [pc.next, ⟨.firstLaunch, 0⟩]
  | .iret => []
  | _ => [pc.next]

/-- At least as many instructions as are left of a handler. -/
def rank (pc : Pc) : Nat :=
  match pc.block with
  | .stub _ => 20 - pc.idx
  | .idtText => 14 - pc.idx
  | .clockInterruptIsr => 24 - pc.idx
  | .syscallIsr => 10 - pc.idx
  | .firstLaunch => 11 - pc.idx
  | .idle => 0

/-- The call of a C function is still to come. -/
def calling (pc : Pc) : Bool :=
  match pc.block with
  | .stub _ => true
  | .idtText => pc.idx ≤ 10
  | .clockInterruptIsr | .syscallIsr => pc.idx ≤ 6
  | .firstLaunch | .idle => false

/-- The way goes on in a handler, towards its end, and no call comes after a call. -/
def Flows (pc : Pc) (i : Instr) : Prop :=
  0 < pc.rank ∧ (i.isCall = true → pc.calling = true) ∧
    ∀ pc' ∈ pc.succs i, pc'.Valid ∧ pc'.block ≠ .idle ∧ pc'.rank < pc.rank ∧
      (pc'.calling = true → pc.calling = true ∧ i.isCall = false)

instance (pc : Pc) (i : Instr) : Decidable (pc.Flows i) := inferInstanceAs (Decidable (_ ∧ _))

theorem flows_stub : ∀ v : Fin 256, ∀ p ∈ (text (.stub v)).zipIdx, Flows ⟨.stub v, p.2⟩ p.1 := by
  decide +kernel

theorem flows {pc : Pc} {i : Instr} (hi : pc.instr? = some i) (hblock : pc.block ≠ .idle) :
    pc.Flows i := by
  obtain ⟨b, n⟩ := pc
  have hmem : (i, n) ∈ (text b).zipIdx := List.mem_zipIdx_iff_getElem?.mpr hi
  cases b with
  | stub v => exact flows_stub v _ hmem
  | idtText =>
    have hall : ∀ p ∈ (text .idtText).zipIdx, Flows ⟨.idtText, p.2⟩ p.1 := by decide +kernel
    exact hall _ hmem
  | clockInterruptIsr =>
    have hall : ∀ p ∈ (text .clockInterruptIsr).zipIdx, Flows ⟨.clockInterruptIsr, p.2⟩ p.1 := by
      decide +kernel
    exact hall _ hmem
  | syscallIsr =>
    have hall : ∀ p ∈ (text .syscallIsr).zipIdx, Flows ⟨.syscallIsr, p.2⟩ p.1 := by
      decide +kernel
    exact hall _ hmem
  | firstLaunch =>
    have hall : ∀ p ∈ (text .firstLaunch).zipIdx, Flows ⟨.firstLaunch, p.2⟩ p.1 := by
      decide +kernel
    exact hall _ hmem
  | idle => exact absurd rfl hblock

end Pc

def FineEvent.isExec : FineEvent → Bool
  | .exec _ => true
  | _ => false

namespace Machine

variable {img : Image} {σ σ' : Scratch} {s t u v s₀ : Machine} {cur : Option (Fin 2)}
  {e : FineEvent} {es : List FineEvent} {pc : Pc} {i : Instr}

/-! ## Instructions -/

theorem cpu_saveContext {ctx : Word} (h : s.saveContext ctx = some t) : t.cpu = s.cpu := by
  unfold saveContext at h
  split at h
  · split at h
    · cases h
    · obtain ⟨i, -, hi⟩ := Option.bind_eq_some_iff.mp h
      obtain rfl := Option.some.inj hi
      rfl
  · obtain rfl := Option.some.inj h
    rfl

theorem cs_setDataSegs {sel : Sel} (h : s.setDataSegs sel = some t) : t.cpu.cs = s.cpu.cs := by
  unfold setDataSegs at h
  split at h
  · obtain rfl := Option.some.inj h
    rfl
  · cases h

theorem cs_setCr3 {dir : Word} (h : s.setCr3 dir = some t) : t.cpu.cs = s.cpu.cs := by
  simp only [setCr3] at h
  split at h
  · obtain rfl := Option.some.inj h
    rfl
  · cases h

theorem cs_clockInterruptHandler {ctx : Word} {exit : ClockExit}
    (h : s.clockInterruptHandler ctx = some (exit, t)) : t.cpu.cs = s.cpu.cs := by
  simp only [clockInterruptHandler, Option.bind_eq_bind, Option.bind_eq_some_iff] at h
  obtain ⟨s₁, hsave, s₂, hsegs, next, -, s₃, hcr3, hexit⟩ := h
  have hline : (if (s.currentTaskIdx + 1) % 2 = 1 then s.debug "Printing Counter... \n" []
      else s.debug "Increasing Counter... \n" []).cpu = s.cpu := by
    split <;> rfl
  have hcs : s₃.cpu.cs = s.cpu.cs := by
    refine (cs_setCr3 hcr3).trans ((cs_setDataSegs hsegs).trans ?_)
    rw [cpu_saveContext hsave, hline]
  split at hexit
  · obtain rfl := (Prod.ext_iff.mp (Option.some.inj hexit)).2
    exact hcs
  · obtain rfl := (Prod.ext_iff.mp (Option.some.inj hexit)).2
    exact hcs

/-- A call comes back to the next instruction, or goes on in the launch of a task. -/
theorem callC_at {f : CFun} {ret : Word} (h : s.callC img σ f ret = some t) :
    t.cpu.cs = s.cpu.cs ∧
      (t.cpu.eip = ret ∨ f = .clockInterruptHandler ∧ t.cpu.eip = img.addr ⟨.firstLaunch, 0⟩) := by
  simp only [callC] at h
  split at h
  · cases h
  cases f with
  | intrHdlr =>
    simp only at h
    split at h
    · obtain rfl := Option.some.inj h
      exact ⟨rfl, .inl rfl⟩
    · cases h
  | syscallHandler =>
    simp only [syscallHandler, Option.bind_eq_bind, Option.bind_eq_some_iff] at h
    obtain ⟨s₁, ⟨value, -, hs₁⟩, ht⟩ := h
    obtain rfl := Option.some.inj hs₁
    obtain rfl := Option.some.inj ht
    exact ⟨rfl, .inl rfl⟩
  | clockInterruptHandler =>
    simp only [Option.bind_eq_bind, Option.bind_eq_some_iff] at h
    obtain ⟨⟨exit, s₁⟩, hclock, ht⟩ := h
    have hcs := cs_clockInterruptHandler hclock
    cases exit with
    | ret =>
      obtain rfl := Option.some.inj ht
      exact ⟨hcs, .inl rfl⟩
    | launch stack function =>
      obtain rfl := Option.some.inj ht
      exact ⟨hcs, .inr ⟨rfl, rfl⟩⟩

theorem at_of_exec (hat : s.At img pc) (hi : pc.instr? = some i) (hne : i ≠ .iret)
    (hexec : s.exec img σ = some t) : ∃ pc' ∈ pc.succs i, t.At img pc' := by
  rw [exec_at hat hi] at hexec
  have hcpl (hcs : t.cpu.cs = s.cpu.cs) : t.cpu.cpl = 0 := by
    rw [Cpu.cpl, hcs]
    exact hat.cpl
  cases i with
  | op o =>
    obtain rfl := Option.some.inj hexec
    exact ⟨pc.next, List.mem_singleton_self _, rfl, hcpl (Op.eval_cs o s.cpu s.mem)⟩
  | jmp l =>
    obtain rfl := Option.some.inj hexec
    exact ⟨l, List.mem_singleton_self _, rfl, hcpl rfl⟩
  | outAl port =>
    obtain rfl := Option.some.inj hexec
    exact ⟨pc.next, List.mem_singleton_self _, rfl, hcpl rfl⟩
  | outDx =>
    obtain rfl := Option.some.inj hexec
    exact ⟨pc.next, List.mem_singleton_self _, rfl, hcpl rfl⟩
  | call f =>
    obtain ⟨hcs, heip | ⟨rfl, heip⟩⟩ := callC_at hexec
    · refine ⟨pc.next, ?_, heip, hcpl hcs⟩
      cases f <;> exact List.mem_cons_self
    · exact ⟨⟨.firstLaunch, 0⟩, by simp [Pc.succs], heip, hcpl hcs⟩
  | iret => exact absurd rfl hne

/-- What C code leaves behind matters to a call only. -/
theorem exec_scratch (hat : s.At img pc) (hi : pc.instr? = some i) (hcall : i.isCall = false) :
    s.exec img σ = s.exec img σ' := by
  rw [exec_at hat hi, exec_at hat hi]
  cases i with
  | call f => cases hcall
  | _ => rfl

theorem handle_of_exec (hat : s.At img pc) (hi : pc.instr? = some i) (hne : i ≠ .iret)
    (hexec : s.exec img σ = some t) (n : Nat) :
    s.handle img σ (n + 1) = t.handle img σ n := by
  have hnot : ¬ pc.instr? = some .iret := by
    rw [hi]
    exact fun h => hne (Option.some.inj h)
  simp only [handle, pcAt_of_at hat hi, hexec, if_neg hnot, Option.bind_eq_bind, Option.bind_some]

/-! ## Inside a handler -/

/-- `s` is at `pc` in the handler that was entered in `t`, on the way to the `iret`. -/
structure Handling (img : Image) (t s : Machine) (pc : Pc) : Prop where
  place : s.At img pc
  valid : pc.Valid
  block : pc.block ≠ .idle
  handle : ∃ k, k + pc.rank ≤ handlerFuel ∧
    (∃ σ, ∀ n, t.handle img σ (n + k) = s.handle img σ n) ∧
    (pc.calling = true → ∀ σ n, t.handle img σ (n + k) = s.handle img σ n)

theorem gateBlock_flow (v : Fin 256) :
    Pc.Valid ⟨gateBlock v, 0⟩ ∧ gateBlock v ≠ .idle ∧ Pc.rank ⟨gateBlock v, 0⟩ ≤ handlerFuel := by
  revert v
  decide +kernel

/-- The entry of a handler. -/
theorem Handling.entry {v : Fin 256} (h : t.At img ⟨gateBlock v, 0⟩) :
    Handling img t t ⟨gateBlock v, 0⟩ where
  place := h
  valid := (gateBlock_flow v).1
  block := (gateBlock_flow v).2.1
  handle := ⟨0, by rw [Nat.zero_add]; exact (gateBlock_flow v).2.2,
    ⟨sampleScratch, fun _ => rfl⟩, fun _ _ _ => rfl⟩

theorem Handling.instr (h : Handling img t s pc) : ∃ i, pc.instr? = some i :=
  ⟨_, List.getElem?_eq_getElem h.valid⟩

/-- An instruction that is not the `iret`. -/
theorem Handling.exec (h : Handling img t s pc) (hi : pc.instr? = some i) (hne : i ≠ .iret)
    (hexec : s.exec img σ = some u) : ∃ pc', Handling img t u pc' := by
  obtain ⟨pc', hmem, hat⟩ := at_of_exec h.place hi hne hexec
  obtain ⟨-, hcalls, hsuccs⟩ := Pc.flows hi h.block
  obtain ⟨hvalid, hblock, hrank, hcalling⟩ := hsuccs pc' hmem
  obtain ⟨k, hk, ⟨σ₀, hσ₀⟩, hall⟩ := h.handle
  have hnext {σ' : Scratch} (hσ' : s.exec img σ' = some u)
      (hbefore : ∀ n, t.handle img σ' (n + k) = s.handle img σ' n) (n : Nat) :
      t.handle img σ' (n + (k + 1)) = u.handle img σ' n := by
    rw [← handle_of_exec h.place hi hne hσ' n, ← hbefore]
    congr 1
    omega
  refine ⟨pc', hat, hvalid, hblock, k + 1, by omega, ?_, fun hcall' σ' => ?_⟩
  · cases hcall : i.isCall with
    | true => exact ⟨σ, hnext hexec (hall (hcalls hcall) σ)⟩
    | false => exact ⟨σ₀, hnext ((exec_scratch h.place hi hcall).trans hexec) hσ₀⟩
  · obtain ⟨hbefore, hcall⟩ := hcalling hcall'
    exact hnext ((exec_scratch h.place hi hcall).trans hexec) (hall hbefore σ')

/-- The `iret`. -/
theorem Handling.iret (h : Handling img t s pc) (hi : pc.instr? = some .iret)
    (hexec : s.exec img σ = some u) : ∃ σ', t.handle img σ' handlerFuel = some u := by
  obtain ⟨k, hk, ⟨σ₀, hσ₀⟩, -⟩ := h.handle
  have hrank := (Pc.flows hi h.block).1
  refine ⟨σ₀, handle_mono (k := 1 + k) ?_ (by omega)⟩
  rw [hσ₀, handle_iret pc h.place hi]
  rw [exec_at h.place hi] at hexec
  simp only [execInstr, Option.bind_eq_bind] at hexec
  obtain ⟨cpu, hcpu, hu⟩ := Option.bind_eq_some_iff.mp hexec
  rw [hcpu]
  exact hu

/-- Nothing but a request or the next instruction can happen, and the request only in a
launch. -/
theorem Handling.event (h : Handling img t s pc) (hsettles : Settles img (AtRest img) s)
    (hquiet : ∀ n, e = .irq n → ¬ InLaunch img s) (hstep : fineStep img s e = some u) :
    ∃ σ, e = .exec σ := by
  have hpc := img.pcAt_addr pc h.valid
  rw [← h.place.eip] at hpc
  rcases fineStep_of_cpl h.place.cpl hstep with ⟨n, rfl⟩ | hexec
  · exfalso
    cases hsettles with
    | next hcpl hwait hsave hnext =>
      simp only [fineStep, irq, hwait, Bool.not_false, if_true] at hstep
      cases hstep
    | done hrest =>
      rcases hrest with ⟨cur, hinv⟩ | ⟨base, i, j, hj, hlaunch⟩
      · cases cur with
        | none =>
          have hm : IdleMode img s := hinv.mode
          have hidle := img.pcAt_addr ⟨.idle, 0⟩ (by decide)
          rw [← hm.eip, hpc] at hidle
          exact h.block (congrArg Pc.block (Option.some.inj hidle))
        | some i =>
          have hm : UserMode s i := hinv.mode
          have hcpl := hm.cpl
          rw [h.place.cpl] at hcpl
          cases hcpl
      · exact hquiet n rfl (hlaunch.inLaunch hj)
  · exact hexec

/-! ## Entering a handler -/

theorem at_of_interrupt {n : Nat} {err : Option Word} (hidt : s.idt = examIdt img)
    (h : s.interrupt n err = some t) : ∃ v, t.At img ⟨gateBlock v, 0⟩ := by
  simp only [interrupt, Option.bind_eq_bind, Option.bind_eq_some_iff] at h
  obtain ⟨g, hg, h⟩ := h
  have hn : n < 256 := by
    have hlen := (List.getElem?_eq_some_iff.mp hg).1
    rw [hidt] at hlen
    simpa [examIdt, intrInit, idtNrDesc] using hlen
  obtain ⟨g', hg', hgate⟩ := gate_examIdt img ⟨n, hn⟩
  rw [hidt, hg'] at hg
  obtain rfl := Option.some.inj hg
  split at h
  · cases h
  split at h
  · cases h
  split at h
  · obtain rfl := Option.some.inj h
    have hsel : g'.gateSelector &&& ~~~3 = c0Sel := by rw [hgate.selector]; decide
    refine ⟨⟨n, hn⟩, hgate.offset, ?_⟩
    change Sel.rpl (g'.gateSelector &&& ~~~3) = 0
    rw [hsel]
    rfl
  · cases h

/-- The same event, with its handler in one piece. -/
def WholeOf (e : FineEvent) (e' : Event) : Prop := ∃ σ, wholeEvent σ e = some e'

/-- An event is over at once, or a handler is entered. -/
theorem over_or_entered (hidt : s.idt = examIdt img) (hexec : ∀ σ, e ≠ .exec σ)
    (hstep : fineStep img s e = some t) :
    (∃ e', WholeOf e e' ∧ step img s e' = some t) ∨
      (∃ pc, Handling img t t pc) ∧
        ∀ σ, ∃ e', WholeOf e e' ∧ step img s e' = t.handle img σ handlerFuel := by
  have hentered {u : Machine} {n : Nat} {err : Option Word} (h : u.interrupt n err = some t)
      (hidt' : u.idt = examIdt img) : ∃ pc, Handling img t t pc := by
    obtain ⟨v, hat⟩ := at_of_interrupt hidt' h
    exact ⟨_, .entry hat⟩
  cases e with
  | user u => exact .inl ⟨.user u, ⟨sampleScratch, rfl⟩, hstep⟩
  | int n =>
    have hraise : s.raiseInt n = some t := hstep
    refine .inr ⟨?_, fun σ => ⟨.int n σ, ⟨σ, rfl⟩, (softInt_eq n).trans (by rw [hraise]; rfl)⟩⟩
    simp only [raiseInt, Option.bind_eq_bind] at hraise
    split at hraise
    · cases hraise
    · obtain ⟨g, -, hint⟩ := Option.bind_eq_some_iff.mp hraise
      split at hint
      · exact hentered hint hidt
      · exact hentered hint hidt
  | fault v err cr2 =>
    have hraise : s.raiseFault v err cr2 = some t := hstep
    refine .inr ⟨?_, fun σ => ⟨.fault v err cr2 σ, ⟨σ, rfl⟩,
      (fault_eq v err cr2).trans (by rw [hraise]; rfl)⟩⟩
    simp only [raiseFault] at hraise
    split at hraise
    · cases hraise
    · exact hentered hraise hidt
  | portOut port bs =>
    have hraise : s.raisePortOut port bs = some t := hstep
    by_cases hio : s.ioPermitted port.toNat bs.length = true
    · refine .inl ⟨.portOut port bs sampleScratch, ⟨sampleScratch, rfl⟩, ?_⟩
      simp only [raisePortOut, if_pos hio] at hraise
      simp only [step, portOut, if_pos hio, hraise]
    · refine .inr ⟨?_, fun σ => ⟨.portOut port bs σ, ⟨σ, rfl⟩,
        (portOut_eq hio).trans (by rw [hraise]; rfl)⟩⟩
      simp only [raisePortOut, if_neg hio] at hraise
      exact hentered (cpl_eq_three hraise).2 hidt
  | portIn port width value =>
    have hraise : s.raisePortIn port width value = some t := hstep
    by_cases hio : s.ioPermitted port.toNat width = true
    · refine .inl ⟨.portIn port width value sampleScratch, ⟨sampleScratch, rfl⟩, ?_⟩
      simp only [raisePortIn, if_pos hio] at hraise
      simp only [step, portIn, if_pos hio, hraise]
    · refine .inr ⟨?_, fun σ => ⟨.portIn port width value σ, ⟨σ, rfl⟩,
        (portIn_eq hio).trans (by rw [hraise]; rfl)⟩⟩
      simp only [raisePortIn, if_neg hio] at hraise
      exact hentered (cpl_eq_three hraise).2 hidt
  | irq n =>
    have hraise : s.irq n = some t := hstep
    refine .inr ⟨?_, fun σ => ⟨.irq n σ, ⟨σ, rfl⟩, by rw [step, hraise]; rfl⟩⟩
    simp only [irq] at hraise
    split at hraise
    · cases hraise
    · obtain ⟨⟨pics, w⟩, -, hint⟩ := Option.bind_eq_some_iff.mp hraise
      exact hentered hint hidt
  | exec σ => exact absurd rfl (hexec σ)

/-- The loop of `config` goes round without a trace. -/
theorem Inv.exec_eq (h : Inv img s cur) (hstep : s.exec img σ = some t) : t = s := by
  cases cur with
  | none =>
    have hm : IdleMode img s := h.mode
    have hat : s.At img ⟨.idle, 0⟩ := ⟨hm.eip, hm.cpl⟩
    have hcpu : ({ s.cpu with eip := img.addr ⟨.idle, 0⟩, shadow := false } : Cpu) = s.cpu := by
      rw [← hm.eip, ← hm.shadow]
    obtain rfl := Option.some.inj ((exec_at hat rfl).symm.trans hstep)
    exact congrArg (fun cpu => { s with cpu }) hcpu
  | some i =>
    have hm : UserMode s i := h.mode
    have hcpl : s.cpu.cpl ≠ 0 := by rw [hm.cpl]; decide
    rw [Machine.exec, if_pos hcpl] at hstep
    cases hstep

/-! ## Runs -/

/-- No request at all is accepted while a task is being started. -/
def LaunchesUndisturbed (img : Image) (s : Machine) (es : List FineEvent) : Prop :=
  ∀ es₁ n es₂ u, es = es₁ ++ .irq n :: es₂ → Lts.run (fineStep img) s es₁ = some u →
    ¬ InLaunch img u

theorem LaunchesUndisturbed.inPeace (h : LaunchesUndisturbed img s es) :
    LaunchesInPeace img s es := fun es₁ es₂ u hes hu => h es₁ 0 es₂ u hes hu

/-- The events `es` come to those of `es'`, each with its handler in one piece. -/
def Serialised (es : List FineEvent) (es' : List Event) : Prop :=
  List.Forall₂ WholeOf (es.filter fun e => !e.isExec) es'

theorem Serialised.append {fs : List FineEvent} {es' fs' : List Event} (h : Serialised es es')
    (h' : Serialised fs fs') : Serialised (es ++ fs) (es' ++ fs') := by
  unfold Serialised
  rw [List.filter_append]
  exact List.rel_append h h'

theorem serialised_execs {fs : List FineEvent} (hfs : ∀ f ∈ fs, f.isExec = true) :
    Serialised fs [] := by
  have hnil : fs.filter (fun e => !e.isExec) = [] := by
    rw [List.filter_eq_nil_iff]
    intro f hf
    rw [hfs f hf]
    exact Bool.false_ne_true
  unfold Serialised
  rw [hnil]
  exact .nil

theorem Serialised.cons {fs : List FineEvent} {e' : Event} (he : WholeOf e e')
    (hfs : ∀ f ∈ fs, f.isExec = true) : Serialised (e :: fs) [e'] := by
  have hexec : e.isExec = false := by
    obtain ⟨σ, hσ⟩ := he
    cases e with
    | exec σ' => cases hσ
    | _ => rfl
  have hnil := serialised_execs hfs
  unfold Serialised at hnil ⊢
  rw [List.filter_cons_of_pos (by rw [hexec]; rfl)]
  exact .cons he hnil

/-- The events have been a run with whole handlers. -/
structure Completed (img : Image) (s₀ : Machine) (es : List FineEvent) (s : Machine)
    (cur : Option (Fin 2)) : Prop where
  run : ∃ es', Serialised es es' ∧ Lts.run (step img) s₀ es' = some s
  inv : Inv img s cur

/-- They have been such a run but for the last event and the part of its handler that the
kernel has executed. -/
structure Inside (img : Image) (s₀ : Machine) (pre : List FineEvent) (e : FineEvent)
    (fs : List FineEvent) (s : Machine) : Prop where
  spare : FineSparesPics e
  execs : ∀ f ∈ fs, f.isExec = true
  handler : ∃ u t cur pc, Completed img s₀ pre u cur ∧ fineStep img u e = some t ∧
    (∀ σ, ∃ e', WholeOf e e' ∧ step img u e' = t.handle img σ handlerFuel) ∧
    Lts.run (fineStep img) t fs = some s ∧ Handling img t s pc

def Serial (img : Image) (s₀ : Machine) (es : List FineEvent) (s : Machine) : Prop :=
  (∃ cur, Completed img s₀ es s cur) ∨ ∃ pre e fs, es = pre ++ e :: fs ∧ Inside img s₀ pre e fs s

theorem Completed.event (h : Completed img s₀ es s cur) {fs : List FineEvent} {e' : Event}
    (hspare : FineSparesPics e) (he : WholeOf e e') (hfs : ∀ f ∈ fs, f.isExec = true)
    (hstep : step img s e' = some t) : ∃ cur', Completed img s₀ (es ++ e :: fs) t cur' := by
  obtain ⟨es', hes, hrun⟩ := h.run
  obtain ⟨σ, hσ⟩ := he
  exact ⟨_, ⟨es' ++ [e'], hes.append (.cons ⟨σ, hσ⟩ hfs), Lts.run_snoc.mpr ⟨s, hrun, hstep⟩⟩,
    (effect_of_step h.inv hstep).inv h.inv (hspare σ e' hσ)⟩

theorem Completed.step (h : Completed img s₀ es s cur) (hspare : FineSparesPics e)
    (hstep : fineStep img s e = some t) : Serial img s₀ (es ++ [e]) t := by
  by_cases hexec : ∃ σ, e = .exec σ
  · obtain ⟨σ, rfl⟩ := hexec
    obtain rfl := h.inv.exec_eq hstep
    obtain ⟨es', hes, hrun⟩ := h.run
    have hexecs : ∀ f ∈ [FineEvent.exec σ], f.isExec = true := by simp [FineEvent.isExec]
    have hes' := hes.append (serialised_execs hexecs)
    rw [List.append_nil] at hes'
    exact .inl ⟨cur, ⟨es', hes', hrun⟩, h.inv⟩
  · rcases over_or_entered h.inv.kernel.idt (fun σ he => hexec ⟨σ, he⟩) hstep with
      ⟨e', he, hover⟩ | ⟨⟨pc, hentry⟩, hwhole⟩
    · have hnone : ∀ f ∈ ([] : List FineEvent), f.isExec = true := by simp
      exact .inl (h.event hspare he hnone hover)
    · exact .inr ⟨es, e, [], rfl, hspare, by simp, s, t, cur, pc, h, hstep, hwhole,
        Lts.run_nil.mpr rfl, hentry⟩

theorem Inside.step {pre fs : List FineEvent} {f : FineEvent} (h : Inside img s₀ pre e fs s)
    (hsettles : Settles img (AtRest img) s) (hquiet : ∀ n, f = .irq n → ¬ InLaunch img s)
    (hstep : fineStep img s f = some v) : Serial img s₀ (pre ++ e :: (fs ++ [f])) v := by
  obtain ⟨u, t, cur, pc, hdone, hentry, hwhole, hrun, hhandling⟩ := h.handler
  obtain ⟨σ, rfl⟩ := hhandling.event hsettles hquiet hstep
  have hfs : ∀ f ∈ fs ++ [FineEvent.exec σ], f.isExec = true := by
    intro f hf
    rcases List.mem_append.mp hf with hf | hf
    · exact h.execs f hf
    · rw [List.mem_singleton.mp hf]
      rfl
  obtain ⟨i, hi⟩ := hhandling.instr
  by_cases hiret : i = .iret
  · subst hiret
    obtain ⟨σ', hend⟩ := hhandling.iret hi hstep
    obtain ⟨e', he, hstep'⟩ := hwhole σ'
    exact .inl (hdone.event h.spare he hfs (hstep'.trans hend))
  · obtain ⟨pc', hnext⟩ := hhandling.exec hi hiret hstep
    exact .inr ⟨pre, e, fs ++ [.exec σ], rfl, h.spare, hfs, u, t, cur, pc', hdone, hentry, hwhole,
      Lts.run_snoc.mpr ⟨s, hrun, hstep⟩, hnext⟩

theorem Serial.step (h : Serial img s₀ es s) (hsettles : Settles img (AtRest img) s)
    (hspare : FineSparesPics e) (hquiet : ∀ n, e = .irq n → ¬ InLaunch img s)
    (hstep : fineStep img s e = some t) : Serial img s₀ (es ++ [e]) t := by
  rcases h with ⟨cur, hdone⟩ | ⟨pre, f, fs, rfl, hinside⟩
  · exact hdone.step hspare hstep
  · rw [List.append_assoc, List.cons_append]
    exact hinside.step hsettles hquiet hstep

theorem Booted.serial (hboot : Booted img s₀) (hspare : ∀ e ∈ es, FineSparesPics e)
    (hquiet : LaunchesUndisturbed img s₀ es) (hrun : Lts.run (fineStep img) s₀ es = some s) :
    Serial img s₀ es s := by
  induction es using List.reverseRecOn generalizing s with
  | nil =>
    rw [← Lts.run_nil.mp hrun]
    exact .inl ⟨none, ⟨[], .nil, Lts.run_nil.mpr rfl⟩, hboot.inv⟩
  | append_singleton es e ih =>
    obtain ⟨u, hpre, hstep⟩ := Lts.run_snoc.mp hrun
    have hspare' : ∀ f ∈ es, FineSparesPics f := fun f hf =>
      hspare f (List.mem_append_left _ hf)
    have hquiet' : LaunchesUndisturbed img s₀ es := by
      rintro es₁ n es₂ v rfl hv
      exact hquiet es₁ n (es₂ ++ [e]) v (by simp) hv
    have hsettles : Settles img (AtRest img) u :=
      Settles.run (.done (.inl ⟨none, hboot.inv⟩)) hspare' hquiet'.inPeace hpre
    refine (ih hspare' hquiet' hpre).step hsettles (hspare e (by simp)) ?_ hstep
    rintro n rfl
    exact hquiet es n [] u rfl hpre

/-! ## Runs of whole handlers among them -/

theorem WholeOf.spares {e' : Event} (he : WholeOf e e') (h : SparesPics e') : FineSparesPics e := by
  obtain ⟨σ, hσ⟩ := he
  intro σ' f hf
  cases e with
  | exec σ'' => cases hσ
  | _ =>
    obtain rfl := Option.some.inj hσ
    obtain rfl := Option.some.inj hf
    exact h

theorem exists_wholeOf (e' : Event) : ∃ e σ, wholeEvent σ e = some e' := by
  cases e' with
  | user u => exact ⟨.user u, sampleScratch, rfl⟩
  | int n σ => exact ⟨.int n, σ, rfl⟩
  | fault v err cr2 σ => exact ⟨.fault v err cr2, σ, rfl⟩
  | portOut port bs σ => exact ⟨.portOut port bs, σ, rfl⟩
  | portIn port width value σ => exact ⟨.portIn port width value, σ, rfl⟩
  | irq n σ => exact ⟨.irq n, σ, rfl⟩

/-- An event with its whole handler, instruction by instruction. -/
theorem fineRun_of_step {e' : Event} (hstep : step img s e' = some t) :
    ∃ e fs, WholeOf e e' ∧ (∀ f ∈ fs, f.isExec = true) ∧
      Lts.run (fineStep img) s (e :: fs) = some t := by
  obtain ⟨e, σ, he⟩ := exists_wholeOf e'
  rcases step_eq img s he with h | h
  · exact ⟨e, [], ⟨σ, he⟩, by simp, Lts.run_cons.mpr ⟨t, h ▸ hstep, Lts.run_nil.mpr rfl⟩⟩
  · obtain ⟨u, hu, hhandle⟩ := Option.bind_eq_some_iff.mp (h ▸ hstep)
    obtain ⟨k, hk⟩ := run_of_handle hhandle
    refine ⟨e, List.replicate k (.exec σ), ⟨σ, he⟩, ?_, Lts.run_cons.mpr ⟨u, hu, hk⟩⟩
    intro f hf
    rw [List.eq_of_mem_replicate hf]
    rfl

theorem Inv.not_inLaunch (h : Inv img s cur) : ¬ InLaunch img s := by
  rintro ⟨hcpl, j, hpc⟩
  cases cur with
  | none =>
    have hm : IdleMode img s := h.mode
    have hidle := img.pcAt_addr ⟨.idle, 0⟩ (by decide)
    rw [← hm.eip, hpc] at hidle
    cases congrArg Pc.block (Option.some.inj hidle)
  | some i =>
    have hm : UserMode s i := h.mode
    rw [hm.cpl] at hcpl
    cases hcpl

theorem LaunchesUndisturbed.snoc {fs : List FineEvent} (h : LaunchesUndisturbed img s₀ es)
    (hrun : Lts.run (fineStep img) s₀ es = some s) (hrest : ¬ InLaunch img s)
    (hfs : ∀ f ∈ fs, f.isExec = true) : LaunchesUndisturbed img s₀ (es ++ e :: fs) := by
  intro es₁ n es₂ u hes hu
  rcases List.append_eq_append_iff.mp hes with ⟨as, rfl, has⟩ | ⟨bs, rfl, hbs⟩
  · cases as with
    | nil =>
      rw [List.append_nil, hrun] at hu
      exact Option.some.inj hu ▸ hrest
    | cons a as =>
      have hmem : FineEvent.irq n ∈ fs := by
        rw [(List.cons.inj has).2]
        simp
      cases hfs _ hmem
  · cases bs with
    | nil =>
      rw [List.append_nil] at hrun
      rw [hrun] at hu
      exact Option.some.inj hu ▸ hrest
    | cons b bs =>
      obtain ⟨rfl, -⟩ := List.cons.inj hbs
      exact h es₁ n bs u rfl hu

theorem Booted.fineRun {es' : List Event} (hboot : Booted img s₀)
    (hspare : ∀ e ∈ es', SparesPics e) (hrun : Lts.run (step img) s₀ es' = some s) :
    ∃ es, Serialised es es' ∧ (∀ e ∈ es, FineSparesPics e) ∧ LaunchesUndisturbed img s₀ es ∧
      Lts.run (fineStep img) s₀ es = some s := by
  induction es' using List.reverseRecOn generalizing s with
  | nil =>
    rw [← Lts.run_nil.mp hrun]
    refine ⟨[], .nil, by simp, ?_, Lts.run_nil.mpr rfl⟩
    intro es₁ n es₂ u hes
    simp at hes
  | append_singleton es' e' ih =>
    obtain ⟨u, hpre, hstep⟩ := Lts.run_snoc.mp hrun
    have hspare' : ∀ f ∈ es', SparesPics f := fun f hf => hspare f (List.mem_append_left _ hf)
    obtain ⟨es, hes, hfine, hquiet, hes'⟩ := ih hspare' hpre
    obtain ⟨e, fs, he, hfs, hnext⟩ := fineRun_of_step hstep
    refine ⟨es ++ e :: fs, hes.append (.cons he hfs), ?_, ?_, Lts.run_append.mpr ⟨u, hes', hnext⟩⟩
    · intro f hf
      rcases List.mem_append.mp hf with hf | hf
      · exact hfine f hf
      · rcases List.mem_cons.mp hf with rfl | hf
        · exact he.spares (hspare e' (by simp))
        · have hexec := hfs f hf
          cases f with
          | exec σ =>
            intro σ' f' hf'
            cases hf'
          | _ => cases hexec
    · exact hquiet.snoc hes' (hboot.inv_run hspare' hpre).not_inLaunch hfs

/-- Unless a request comes while a task is being started, every run of the machine with
requests at all instruction boundaries has been one with whole handlers, and has since
entered at most one handler and executed a part of it undisturbed; and each run with whole
handlers is one of these. -/
theorem atomic_of_run (hboot : Booted img s₀) :
    (∀ es s, (∀ e ∈ es, FineSparesPics e) → LaunchesUndisturbed img s₀ es →
      Lts.run (fineStep img) s₀ es = some s →
      ∃ pre post es' u, es = pre ++ post ∧ Serialised pre es' ∧
        Lts.run (step img) s₀ es' = some u ∧ Lts.run (fineStep img) u post = some s ∧
        (post = [] ∨ s.cpu.cpl = 0 ∧ ∃ e fs, post = e :: fs ∧ ∀ f ∈ fs, f.isExec = true)) ∧
    (∀ es' s, (∀ e ∈ es', SparesPics e) → Lts.run (step img) s₀ es' = some s →
      ∃ es, Serialised es es' ∧ (∀ e ∈ es, FineSparesPics e) ∧ LaunchesUndisturbed img s₀ es ∧
        Lts.run (fineStep img) s₀ es = some s) := by
  refine ⟨fun es s hspare hquiet hrun => ?_, fun es' s hspare hrun => hboot.fineRun hspare hrun⟩
  rcases hboot.serial hspare hquiet hrun with ⟨cur, hdone⟩ | ⟨pre, e, fs, rfl, hinside⟩
  · obtain ⟨es', hes, hrun'⟩ := hdone.run
    exact ⟨es, [], es', s, (List.append_nil es).symm, hes, hrun', Lts.run_nil.mpr rfl, .inl rfl⟩
  · obtain ⟨u, t, cur, pc, hdone, hentry, -, hpart, hhandling⟩ := hinside.handler
    obtain ⟨es', hes, hrun'⟩ := hdone.run
    exact ⟨pre, e :: fs, es', u, rfl, hes, hrun', Lts.run_cons.mpr ⟨t, hentry, hpart⟩,
      .inr ⟨hhandling.place.cpl, e, fs, rfl, hinside.execs⟩⟩

theorem atomic_sampleTask :
    ∃ es, Serialised es [.irq 0 sampleScratch] ∧
      Lts.run (fineStep sampleImage) sample es = some sampleTask := by
  obtain ⟨es, hes, -, -, hrun⟩ := (atomic_of_run booted_sample).2 [.irq 0 sampleScratch] sampleTask
    (by simp [SparesPics]) run_sampleTask
  exact ⟨es, hes, hrun⟩

end Machine

end SecOS
