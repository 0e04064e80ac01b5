-- SUMMARY: Everything an event can do to the machine, read off once, and the invariant over the runs from the boot.
import SecOS.Exam.Invariant
import SecOS.Base.Lts

/-!
# Steps

`Effect` lists what comes of an event in a state of a run: an instruction of level 3, a
clock interrupt, a system call, an interrupt nobody waits for, or an access to a port.
Every other event ends in `panic`. The invariant and all properties of runs are proved
from these cases.
-/

namespace SecOS

open X86

namespace Machine

variable {img : Image} {σ : Scratch} {s s' : Machine} {cur : Option (Fin 2)} {i : Fin 2}

/-! ## Effects -/

/-- The processor after an instruction of level 3. -/
def userCpu (c : Cpu) (u : UserStep) : Cpu :=
  { c with
    eax := u.eax, ecx := u.ecx, edx := u.edx, ebx := u.ebx, esp := u.esp, ebp := u.ebp
    esi := u.esi, edi := u.edi, eip := u.eip, cs := u.cs, ss := u.ss, ds := u.ds, es := u.es
    fs := u.fs, gs := u.gs, shadow := false
    eflags := Eflags.blend c.eflags u.eflags Eflags.user }

/-- `int` returns to the instruction after it. -/
def afterInt (s : Machine) : Machine := { s with cpu := { s.cpu with eip := s.cpu.eip + 2 } }

def withPics (s : Machine) (pics : Pics) : Machine := { s with pics }

def withCr2 (s : Machine) (cr2 : Word) : Machine := { s with cpu := { s.cpu with cr2 } }

/-- What event can do in a state of a run. -/
inductive Effect (img : Image) (s : Machine) (cur : Option (Fin 2)) : Event → Machine → Prop where
  | user {u : UserStep} {i : Fin 2} {mem : Mem} (hcur : cur = some i) (hcs : u.cs = c3Sel)
      (hss : u.ss = d3Sel) (hmem : userStores s.cpu.cr3 s.mem u.stores = some mem) :
      Effect img s cur (.user u) { s with mem, cpu := userCpu s.cpu u }
  | clockIrq (hfree : blockedLine s.pics 0 = false) (σ : Scratch) :
      Effect img s cur (.irq 0 σ) ((s.withPics (servicing s.pics 0)).clockDone img σ cur)
  | clockInt {i : Fin 2} (hcur : cur = some i) (σ : Scratch) :
      Effect img s cur (.int 32 σ) (s.afterInt.clockDone img σ cur)
  | syscall {i : Fin 2} {v : Word} (hcur : cur = some i) (σ : Scratch)
      (hread : s.afterInt.syscallRead img σ = some v) :
      Effect img s cur (.int 0x80 σ) (s.afterInt.syscallDone img σ v)
  | device {n : Nat} {out : List Line} (hn : 0 < n ∧ n < 16 ∧ n ≠ 2)
      (hfree : blockedLine s.pics n = false) (σ : Scratch) :
      Effect img s cur (.irq n σ)
        ((s.withPics (servicing s.pics n)).returned img σ (irqVector n) none out)
  | nmi {i : Fin 2} {err cr2 : Word} {out : List Line} (hcur : cur = some i) (σ : Scratch) :
      Effect img s cur (.fault 2 err cr2 σ) ((s.withCr2 cr2).returned img σ 2 none out)
  | portOut {i : Fin 2} {port : BitVec 16} {bs : List Byte} (hcur : cur = some i)
      (hok : s.ioPermitted port.toNat bs.length = true) (σ : Scratch) :
      Effect img s cur (.portOut port bs σ) (s.outs port bs)
  | portIn {i : Fin 2} {port : BitVec 16} {width : Nat} {value : Word} (hcur : cur = some i)
      {pics : Pics} (hok : s.ioPermitted port.toNat width = true)
      (hreads : s.pics.reads port (lowBytes width value) = some pics) (σ : Scratch) :
      Effect img s cur (.portIn port width value σ)
        { s with pics, cpu := { s.cpu with eax := value } }

/-! ## The default path from a state of a run -/

theorem blow_ofNat {v : Nat} (h : v < 256) : blow (BitVec.ofNat 32 v) = v := by
  simp only [blow, toNat_field, BitVec.toNat_ofNat]
  omega

/-- An exception other than the non-maskable interrupt is the end. -/
theorem intrHdlr_fatal (s : Machine) (err : Option Word) (c : Cpu) {v : Nat} (hv : v < 32)
    (hnmi : v ≠ 2) : ∃ out, intrHdlr c (s.contextOf v err) = .fatal out := by
  have hblow : blow (s.contextOf v err).nr = v := blow_ofNat (by omega)
  simp only [intrHdlr, intrHdlrWith, excpHdlr, hblow, nrExcp, nmiExcp, hv, hnmi, if_true, if_false]
  exact ⟨_, rfl⟩

/-- A request that nobody waits for is reported and no more. -/
theorem intrHdlr_ret (s : Machine) (err : Option Word) (c : Cpu) {v : Nat} (hv : 32 ≤ v)
    (hlt : v < 256) : ∃ out, intrHdlr c (s.contextOf v err) = .ret out := by
  have hblow : blow (s.contextOf v err).nr = v := blow_ofNat hlt
  have hnot : ¬ v < nrExcp := by simp only [nrExcp]; omega
  simp only [intrHdlr, intrHdlrWith, hblow, hnot, if_false]
  exact ⟨_, rfl⟩

theorem gateBlock_stub {v : Fin 256} (h : v.val ≠ clockVector ∧ v.val ≠ syscallVector) :
    gateBlock v = .stub v := by
  rw [gateBlock, if_neg h.1, if_neg h.2]

/-- The default path, as far as the handler. -/
theorem serve_trampoline (hk : Kernel img s) (hm : Mode img s cur) {v : Fin 256}
    {err : Option Word} (hv : v.val < 20 ∨ 32 ≤ v.val)
    (hstub : v.val ≠ clockVector ∧ v.val ≠ syscallVector) (herr : err.isSome = hasErrorCode v) :
    s.serve img σ v err
      = if s.dataUsable = true then
          match intrHdlr s.cpu (s.contextOf v err) with
          | .ret out => some (s.returned img σ v err out)
          | .fatal _ => none
        else none := by
  have hserve : s.serve img σ v err
      = (s.entered (img.addr ⟨gateBlock v, 0⟩) err).handle img σ handlerFuel := by
    simp only [serve, interrupt_eq hk hm, Option.bind_eq_bind, Option.bind_some]
  rw [hserve, gateBlock_stub hstub]
  exact handle_trampoline hv herr (hm.running hk)

/-- An interrupt through the default path and back. -/
theorem serve_stub (hk : Kernel img s) (hm : Mode img s cur) {v : Fin 256} {err : Option Word}
    (hv : v.val < 20 ∨ 32 ≤ v.val) (hstub : v.val ≠ clockVector ∧ v.val ≠ syscallVector)
    (herr : err.isSome = hasErrorCode v) (h : s.serve img σ v err = some s') :
    ∃ out, intrHdlr s.cpu (s.contextOf v err) = .ret out ∧ s' = s.returned img σ v err out := by
  rw [serve_trampoline hk hm hv hstub herr] at h
  split at h
  · split at h
    · next out hout => exact ⟨out, hout, (Option.some.inj h).symm⟩
    · cases h
  · cases h

/-- No exception of level 3 but one comes back. -/
theorem serve_exception (hk : Kernel img s) (hm : Mode img s cur) {v : Fin 256}
    {err : Option Word} (hv : v.val < 20) (herr : err.isSome = hasErrorCode v)
    (h : s.serve img σ v err = some s') :
    v.val = 2 ∧ ∃ out, s' = s.returned img σ v err out := by
  have hstub : v.val ≠ clockVector ∧ v.val ≠ syscallVector := by
    simp only [clockVector, syscallVector]
    omega
  obtain ⟨out, hout, hs'⟩ := serve_stub hk hm (.inl hv) hstub herr h
  refine ⟨?_, out, hs'⟩
  by_contra hnmi
  obtain ⟨out', hfatal⟩ := intrHdlr_fatal s err s.cpu (by omega) hnmi
  rw [hfatal] at hout
  cases hout

theorem serve_gp (hk : Kernel img s) (hm : Mode img s cur) {err : Word} :
    s.serve img σ 13 (some err) = none := by
  by_contra hne
  obtain ⟨s', hs'⟩ := Option.ne_none_iff_exists'.mp hne
  have h := serve_exception (v := 13) hk hm (by decide) rfl hs'
  exact absurd h.1 (by decide)

theorem serve_clock (hk : Kernel img s) (hm : Mode img s cur)
    (h : s.serve img σ 32 none = some s') : s' = s.clockDone img σ cur := by
  have hint := interrupt_eq hk hm 32 none
  have hblock : gateBlock 32 = .clockInterruptIsr := rfl
  rw [hblock] at hint
  simp only [serve] at h
  rw [show (32 : Nat) = (32 : Fin 256).val from rfl, hint] at h
  simp only [Option.bind_eq_bind, Option.bind_some, handle_clock_of_mode hk hm] at h
  split at h
  · exact (Option.some.inj h).symm
  · cases h

theorem serve_syscall (hk : Kernel img s) (hm : UserMode s i)
    (h : s.serve img σ 0x80 none = some s') :
    ∃ v, s.syscallRead img σ = some v ∧ s' = s.syscallDone img σ v := by
  have hmode : Mode img s (some i) := hm
  have hint := interrupt_eq hk hmode 0x80 none
  have hblock : gateBlock 0x80 = .syscallIsr := rfl
  have hcpl : s.cpu.cpl ≠ 0 := by rw [hm.cpl]; decide
  rw [hblock] at hint
  simp only [serve] at h
  rw [show (0x80 : Nat) = (0x80 : Fin 256).val from rfl, hint] at h
  simp only [Option.bind_eq_bind, Option.bind_some, handle_syscall img σ hk.gdt hcpl hm.regs] at h
  split at h
  · obtain ⟨v, hv, hs'⟩ := Option.map_eq_some_iff.mp h
    exact ⟨v, hv, hs'.symm⟩
  · cases h

/-! ## Every event has an effect -/

/-- An exception comes with an error code when its vector says so. -/
theorem isSome_errorCode (v : Nat) (err : Word) :
    (if hasErrorCode v then some err else none).isSome = hasErrorCode v := by
  cases hasErrorCode v <;> rfl

/-- A request comes with none. -/
theorem isSome_irqVector (n : Nat) : (none : Option Word).isSome = hasErrorCode (irqVector n) :=
  (hasErrorCode_of_ge (Nat.le_add_right 32 n)).symm

theorem Kernel.afterInt (hk : Kernel img s) : Kernel img s.afterInt := hk.withCpu

theorem UserMode.afterInt (hm : UserMode s i) : UserMode s.afterInt i :=
  hm.withCpu ⟨hm.regs.cs, hm.regs.ss, hm.regs.flags⟩ hm.shadow rfl

theorem Kernel.withPics (hk : Kernel img s) (pics : Pics) : Kernel img (s.withPics pics) :=
  hk.withCpu

theorem Mode.withPics (hm : Mode img s cur) (pics : Pics) : Mode img (s.withPics pics) cur :=
  hm.frame rfl rfl hm.shadow

theorem Kernel.withCr2 (hk : Kernel img s) (cr2 : Word) : Kernel img (s.withCr2 cr2) := hk.withCpu

theorem Mode.withCr2 (hm : Mode img s cur) (cr2 : Word) : Mode img (s.withCr2 cr2) cur :=
  hm.frame rfl rfl hm.shadow

theorem cpl_eq_three {p : Prop} [Decidable p] {α : Type} {o : Option α} {a : α}
    (h : (if s.cpu.cpl ≠ 3 ∨ p then none else o) = some a) : s.cpu.cpl = 3 ∧ o = some a := by
  split at h
  · cases h
  · next hnot => exact ⟨not_not.mp fun h3 => hnot (.inl h3), h⟩

theorem effect_of_user (hk : Kernel img s) (hm : Mode img s cur) {u : UserStep}
    (h : s.user u = some s') : Effect img s cur (.user u) s' := by
  simp only [user, Option.bind_eq_bind] at h
  split at h
  · cases h
  · next hcpl =>
    obtain ⟨i, hcur, -⟩ := hm.task_of_cpl (not_not.mp hcpl)
    split at h
    · cases h
    · next hsegs =>
      simp only [hk.gdt, Bool.not_eq_true, Bool.not_eq_false', Bool.and_eq_true] at hsegs
      obtain ⟨⟨⟨⟨⟨hcs, hss⟩, -⟩, -⟩, -⟩, -⟩ := hsegs
      obtain ⟨mem, hmem, hs'⟩ := Option.bind_eq_some_iff.mp h
      cases hs'
      exact .user hcur (codeOk_three _ hcs) (stackOk_three _ hss) hmem

theorem effect_of_int (hk : Kernel img s) (hm : Mode img s cur) {n : Fin 256}
    (h : s.softInt img σ n = some s') : Effect img s cur (.int n σ) s' := by
  simp only [softInt] at h
  split at h
  · cases h
  · next hcpl =>
    have hcpl3 := not_not.mp hcpl
    obtain ⟨i, hcur, hi⟩ := hm.task_of_cpl hcpl3
    obtain ⟨g, hg, hgate⟩ := gate_examIdt img n
    have hidt : s.idt[n.val]? = some g := by rw [hk.idt, hg]
    simp only [hidt, Option.bind_eq_bind, Option.bind_some, hgate.dpl, hcpl3] at h
    by_cases hclock : n.val = clockVector
    · obtain rfl : n = 32 := Fin.ext hclock
      rw [if_neg (by decide)] at h
      have hm' : Mode img s.afterInt cur := by rw [hcur]; exact hi.afterInt
      rw [serve_clock hk.afterInt hm' h]
      exact .clockInt hcur σ
    · by_cases hsys : n.val = syscallVector
      · obtain rfl : n = 0x80 := Fin.ext hsys
        rw [if_neg (by decide)] at h
        obtain ⟨v, hread, hs'⟩ := serve_syscall hk.afterInt hi.afterInt h
        rw [hs']
        exact .syscall hcur σ hread
      · have hlevel : gateLevel n = 0 := if_neg (by tauto)
        have hult : (0 : BitVec 2).ult 3 = true := rfl
        rw [hlevel, if_pos hult, serve_gp hk hm] at h
        cases h

theorem effect_of_fault (hk : Kernel img s) (hm : Mode img s cur) {v : Nat} {err cr2 : Word}
    (h : s.fault img σ v err cr2 = some s') : Effect img s cur (.fault v err cr2 σ) s' := by
  simp only [fault] at h
  split at h
  · cases h
  · next hnot =>
    have hcpl : s.cpu.cpl = 3 := not_not.mp fun h3 => hnot (.inl h3)
    have hv : v < 20 := Nat.lt_of_not_le fun hv => hnot (.inr hv)
    obtain ⟨i, hcur, -⟩ := hm.task_of_cpl hcpl
    obtain ⟨hnmi, out, hs'⟩ := serve_exception (v := ⟨v, by omega⟩) (hk.withCr2 cr2)
      (hm.withCr2 cr2) hv (isSome_errorCode v err) h
    obtain rfl : v = 2 := hnmi
    rw [hs']
    exact .nmi hcur σ

/-- A request that the processor and the controllers let through. -/
def Requested (s : Machine) (n : Nat) : Prop :=
  s.cpu.interruptible = true ∧ (s.pics.accept n).isSome = true

theorem Inv.requested (h : Inv img s cur) {n : Nat} :
    Requested s n ↔ (n < 16 ∧ n ≠ 2) ∧ blockedLine s.pics n = false := by
  rw [Requested, h.mode.interruptible, h.pics.accept]
  split
  · next hn => exact ⟨fun _ => hn, fun _ => ⟨rfl, rfl⟩⟩
  · next hn => exact ⟨fun hsome => Bool.noConfusion hsome.2, fun hand => absurd hand hn⟩

/-- It is acknowledged and served; any other has no effect. -/
theorem step_irq (h : Inv img s cur) {n : Nat} :
    step img s (.irq n σ)
      = if (n < 16 ∧ n ≠ 2) ∧ blockedLine s.pics n = false then
          (s.withPics (servicing s.pics n)).serve img σ (irqVector n) none
        else none := by
  simp only [step, irq, h.mode.interruptible, h.pics.accept, Bool.not_true, Bool.false_eq_true,
    if_false, Option.bind_eq_bind]
  split
  · next hn =>
    simp only [Option.bind_some, toNat_irqVector hn.1.1]
    rfl
  · rfl

theorem effect_of_irq (h : Inv img s cur) {n : Nat} (hstep : step img s (.irq n σ) = some s') :
    Effect img s cur (.irq n σ) s' := by
  rw [step_irq h] at hstep
  split at hstep
  · next hn =>
    obtain ⟨⟨hlt, hne⟩, hfree⟩ := hn
    have hk := h.kernel.withPics (servicing s.pics n)
    have hm := h.mode.withPics (servicing s.pics n)
    by_cases h0 : n = 0
    · subst h0
      rw [serve_clock hk hm hstep]
      exact .clockIrq hfree σ
    · obtain ⟨out, -, hs'⟩ := serve_stub (v := ⟨irqVector n, irqVector_lt hlt⟩) hk hm
        (.inr (Nat.le_add_right 32 n))
        (by simp only [irqVector, clockVector, syscallVector]; omega) (isSome_irqVector n) hstep
      rw [hs']
      exact .device ⟨by omega, hlt, hne⟩ hfree σ
  · cases hstep

theorem effect_of_step (h : Inv img s cur) {e : Event} (hstep : step img s e = some s') :
    Effect img s cur e s' := by
  cases e with
  | user u => exact effect_of_user h.kernel h.mode hstep
  | int n σ => exact effect_of_int h.kernel h.mode hstep
  | fault v err cr2 σ => exact effect_of_fault h.kernel h.mode hstep
  | portOut port bs σ =>
    simp only [step, portOut] at hstep
    obtain ⟨hcpl, hio⟩ := cpl_eq_three hstep
    obtain ⟨i, hcur, -⟩ := h.mode.task_of_cpl hcpl
    split at hio
    · next hok =>
      cases hio
      exact .portOut hcur hok σ
    · rw [serve_gp h.kernel h.mode] at hio
      cases hio
  | portIn port width value σ =>
    simp only [step, portIn] at hstep
    obtain ⟨hcpl, hio⟩ := cpl_eq_three hstep
    obtain ⟨i, hcur, -⟩ := h.mode.task_of_cpl hcpl
    split at hio
    · next hok =>
      obtain ⟨pics, hreads, hs'⟩ := Option.map_eq_some_iff.mp hio
      exact hs' ▸ .portIn hcur hok hreads σ
    · rw [serve_gp h.kernel h.mode] at hio
      cases hio
  | irq n σ => exact effect_of_irq h hstep

/-! ## Events that are served -/

/-- The timer's request is delivered in every state of a run, unless it must wait. -/
theorem irq_zero (h : Inv img s cur) (hfree : blockedLine s.pics 0 = false) :
    s.irq 0 = some ((s.withPics (servicing s.pics 0)).entered
      (img.addr ⟨.clockInterruptIsr, 0⟩) none) := by
  have hint := interrupt_eq (h.kernel.withPics (servicing s.pics 0))
    (h.mode.withPics (servicing s.pics 0)) 32 none
  simp only [irq, h.mode.interruptible, h.pics.accept, hfree, Bool.not_true, Bool.false_eq_true,
    if_false, Option.bind_eq_bind]
  exact hint

/-- And its handler switches tasks, unless the task has made DS or ES unusable. -/
theorem step_irq_zero (h : Inv img s cur) :
    step img s (.irq 0 σ)
      = if blockedLine s.pics 0 = false ∧ s.clockUsable = true then
          some ((s.withPics (servicing s.pics 0)).clockDone img σ cur)
        else none := by
  by_cases hfree : blockedLine s.pics 0 = false
  · have hclock := handle_clock_of_mode (σ := σ) (h.kernel.withPics (servicing s.pics 0))
      (h.mode.withPics (servicing s.pics 0))
    simp only [step, irq_zero h hfree, Option.bind_some, hclock, hfree, true_and]
    rfl
  · rw [if_neg fun hand => hfree hand.1, step_irq h, if_neg fun hand => hfree hand.2]

/-- Any other request is reported, unless the task has made DS unusable. -/
theorem step_irq_device (h : Inv img s cur) {n : Nat} (hn : 0 < n ∧ n < 16 ∧ n ≠ 2)
    (hfree : blockedLine s.pics n = false) :
    ∃ out, step img s (.irq n σ)
      = if s.dataUsable = true then
          some ((s.withPics (servicing s.pics n)).returned img σ (irqVector n) none out)
        else none := by
  have hlt := irqVector_lt hn.2.1
  obtain ⟨out, hout⟩ := intrHdlr_ret (s.withPics (servicing s.pics n)) none s.cpu
    (v := irqVector n) (Nat.le_add_right 32 n) hlt
  have hserve := serve_trampoline (σ := σ) (v := ⟨irqVector n, hlt⟩)
    (h.kernel.withPics (servicing s.pics n)) (h.mode.withPics (servicing s.pics n))
    (.inr (Nat.le_add_right 32 n))
    (by simp only [irqVector, clockVector, syscallVector]; omega) (isSome_irqVector n)
  refine ⟨out, ?_⟩
  rw [step_irq h, if_pos ⟨hn.2, hfree⟩, hserve]
  refine if_congr Iff.rfl ?_ rfl
  have hcall : intrHdlr (s.withPics (servicing s.pics n)).cpu
      ((s.withPics (servicing s.pics n)).contextOf (⟨irqVector n, hlt⟩ : Fin 256) none)
        = .ret out := hout
  rw [hcall]

/-- A system call comes back unless its pointer, or DS, is unusable. -/
theorem step_syscall (h : Inv img s (some i)) :
    step img s (.int 0x80 σ)
      = if s.dataUsable = true then
          (s.afterInt.syscallRead img σ).map (s.afterInt.syscallDone img σ)
        else none := by
  have hm : UserMode s i := h.mode
  obtain ⟨g, hg, hgate⟩ := gate_examIdt img 0x80
  have hidt : s.idt[(0x80 : Fin 256).val]? = some g := by rw [h.kernel.idt, hg]
  have hm' : Mode img s.afterInt (some i) := hm.afterInt
  have hint := interrupt_eq h.kernel.afterInt hm' 0x80 none
  have hcpl : s.afterInt.cpu.cpl ≠ 0 := by rw [hm.afterInt.cpl]; decide
  have hsyscall := handle_syscall img σ h.kernel.afterInt.gdt hcpl hm.afterInt.regs
  have hlevel : (gateLevel 0x80).ult 3 = false := rfl
  simp only [step, softInt, hm.cpl, ne_eq, not_true_eq_false, hidt, Option.bind_eq_bind,
    Option.bind_some, hgate.dpl, hlevel, Bool.false_eq_true, if_false, serve]
  exact (congrArg (fun o => o.bind (handle img σ handlerFuel)) hint).trans hsyscall

/-- An instruction of level 3 that leaves CS and SS alone. -/
theorem step_user (h : Inv img s (some i)) {u : UserStep} {mem : Mem} (hcs : u.cs = c3Sel)
    (hss : u.ss = d3Sel)
    (hdata : ∀ sel ∈ [u.ds, u.es, u.fs, u.gs], (examGdt img.tss).dataOk 3 sel = true)
    (hmem : userStores s.cpu.cr3 s.mem u.stores = some mem) :
    step img s (.user u) = some { s with mem, cpu := userCpu s.cpu u } := by
  have hm : UserMode s i := h.mode
  simp only [List.forall_mem_cons] at hdata
  obtain ⟨hds, hes, hfs, hgs, -⟩ := hdata
  simp only [step, user, hm.cpl, hcs, hss, hds, hes, hfs, hgs, h.kernel.gdt, codeOk_c3Sel,
    stackOk_d3Sel, hmem, ne_eq, not_true_eq_false, Bool.and_self, Bool.not_true,
    Bool.false_eq_true, if_false, Option.bind_eq_bind, Option.bind_some, userCpu]
  rfl

/-! ## Effects keep the invariant -/

/-- The handler of the clock runs. -/
def switches : Event → Bool
  | .irq n _ => n == 0
  | .int n _ => n.val == clockVector
  | _ => false

/-- The task that runs after an event. -/
def taskAfter (cur : Option (Fin 2)) (e : Event) : Option (Fin 2) :=
  if switches e then some (nextOf cur) else cur

/-- Level 3 does not initialise an interrupt controller anew: no byte with bit 4 set
goes to a command port. -/
def SparesPics : Event → Prop
  | .portOut port bs _ =>
    ∀ k b, bs[k]? = some b → port + BitVec.ofNat 16 k = pic1 ∨ port + BitVec.ofNat 16 k = pic2 →
      b.getLsbD 4 = false
  | _ => True

/-- What holds of the controllers and survives each byte of a write survives the write. -/
theorem pics_outs {P : Pics → Prop} {Q : BitVec 16 → Byte → Prop} {port : BitVec 16}
    {bs : List Byte} (hout : ∀ p port b, P p → Q port b → P (p.out port b)) (h : P s.pics)
    (hbytes : ∀ k b, bs[k]? = some b → Q (port + BitVec.ofNat 16 k) b) :
    P (s.outs port bs).pics := by
  induction bs generalizing s port with
  | nil => exact h
  | cons b bs ih =>
    have hfirst := hbytes 0 b rfl
    rw [BitVec.add_zero] at hfirst
    refine ih (s := s.outb .ring3 b port) (hout _ _ _ h hfirst) fun k b' hb' => ?_
    have hadd : port + 1 + BitVec.ofNat 16 k = port + BitVec.ofNat 16 (k + 1) := by
      apply BitVec.eq_of_toNat_eq
      simp
      omega
    rw [hadd]
    exact hbytes (k + 1) b' (by simpa using hb')

/-- Whatever else is written to ports, the controllers stay serviceable. -/
theorem serviceable_outs {port : BitVec 16} {bs : List Byte} (h : Serviceable s.pics)
    (hspare : ∀ k b, bs[k]? = some b →
      port + BitVec.ofNat 16 k = pic1 ∨ port + BitVec.ofNat 16 k = pic2 → b.getLsbD 4 = false) :
    Serviceable (s.outs port bs).pics :=
  pics_outs (fun _ _ _ hp hv => hp.out hv) h hspare

/-- Writes to ports change nothing but the controllers and the log. -/
theorem outs_eq {port : BitVec 16} {bs : List Byte} :
    s.outs port bs = { s with pics := (s.outs port bs).pics, ports := (s.outs port bs).ports } := by
  induction bs generalizing s port with
  | nil => rfl
  | cons b bs ih => rw [outs, ih]; rfl

/-- An interrupt that nobody waits for is acknowledged where it came from. -/
theorem acked_servicing (h : Serviceable s.pics) {n : Nat} (hn : n < 16)
    (hfree : blockedLine s.pics n = false) :
    ((s.withPics (servicing s.pics n)).acked (irqVector n)).pics = s.pics := by
  by_cases h8 : n < 8
  · rw [acked_master (by simp only [irqVector]; omega)]
    exact h.eoi_master h8 hfree
  · rw [acked_slave (by simp only [irqVector]; omega)]
    exact h.eoi_slave (by omega) hn hfree

theorem returned_eq {v : Nat} {err : Option Word} {out : List Line} :
    s.returned img σ v err out = { s with
      cpu := restored s.gdt s.cpu, mem := (s.returned img σ v err out).mem
      pics := (s.acked v).pics, console := s.console ++ out, ports := (s.acked v).ports } := rfl

/-- Back at level 0 the registers are those of the interrupt. -/
theorem returned_cpu {v : Nat} {err : Option Word} {out : List Line} (hcpl : s.cpu.cpl = 0) :
    (s.returned img σ v err out).cpu = { s.cpu with shadow := false } := if_pos hcpl

theorem Inv.returned (hk : Kernel img s) (hm : Mode img s cur) {v : Nat} {err : Option Word}
    {out : List Line} (hpics : Serviceable (s.acked v).pics) :
    Inv img (s.returned img σ v err out) cur := by
  rw [returned_eq]
  exact
    { kernel := hk.frame hm.kernelTop.sp fun b hb => returned_area hb
      pics := hpics
      mode := hm.frame (regsOf_restored _ _) (restored_cr3 _ _) (restored_shadow _ _) }

theorem Inv.clockDone (hk : Kernel img s) (hm : Mode img s cur)
    (hpics : Serviceable (s.pics.out pic1 picEoi)) :
    Inv img (s.clockDone img σ cur) (some (nextOf cur)) where
  kernel := hk.clockDone hm
  pics := hpics
  mode := UserMode.clockDone hk hm

/-- A handler leaves the controllers as they were before the interrupt, and so does a read,
unless a poll is under way; a call of the clock's gate, when nothing is in service. -/
theorem Effect.pics_eq {e : Event} (he : Effect img s cur e s') (h : Inv img s cur)
    (hquiet : Quiet s.pics) (hport : ∀ port bs σ, e ≠ .portOut port bs σ) : s'.pics = s.pics := by
  cases he with
  | user hcur hcs hss hmem => rfl
  | clockIrq hfree σ => exact h.pics.eoi_master (by decide) hfree
  | clockInt hcur σ => exact hquiet.eoi
  | syscall hcur σ hread => rfl
  | device hn hfree σ => exact acked_servicing h.pics hn.2.1 hfree
  | nmi hcur σ => rfl
  | portOut hcur hok σ => exact absurd rfl (hport _ _ _)
  | portIn hcur hok hreads σ => exact Option.some.inj (hreads.symm.trans (hquiet.reads _))

theorem Effect.inv {e : Event} (he : Effect img s cur e s') (h : Inv img s cur)
    (hspare : SparesPics e) : Inv img s' (taskAfter cur e) := by
  cases he with
  | @user u i mem hcur hcs hss hmem =>
    subst hcur
    have hm : UserMode s _ := h.mode
    rw [hm.cr3] at hmem
    have hflags : Eflags.blend s.cpu.eflags u.eflags Eflags.user &&& userFixed = Eflags.intr :=
      (Eflags.blend_and _ _ (by decide)).trans hm.regs.flags
    exact
      { kernel := { h.kernel with tables := (userStores_spec h.kernel.tables hmem).1 }
        pics := h.pics
        mode := hm.withCpu ⟨hcs, hss, hflags⟩ rfl rfl }
  | clockIrq hfree σ =>
    refine .clockDone (h.kernel.withPics _) (h.mode.withPics _) ?_
    exact h.pics.servicing.eoi
  | clockInt hcur σ =>
    subst hcur
    have hm : UserMode s _ := h.mode
    have hm' : Mode img s.afterInt (some _) := hm.afterInt
    refine .clockDone h.kernel.afterInt hm' ?_
    exact h.pics.eoi
  | @syscall i v hcur σ hread =>
    subst hcur
    have hm : UserMode s _ := h.mode
    have hm' : Mode img s.afterInt (some i) := hm.afterInt
    exact
      { kernel := h.kernel.afterInt.frame hm'.kernelTop.sp fun b hb => syscallDone_area (v := v) hb
        pics := h.pics
        mode := hm.withCpu hm.afterInt.regs rfl rfl }
  | @device n out hn hfree σ =>
    have htask : taskAfter cur (.irq n σ) = cur := if_neg (by simp [switches]; omega)
    rw [htask]
    refine .returned (h.kernel.withPics _) (h.mode.withPics _) ?_
    exact (acked_servicing h.pics hn.2.1 hfree).symm ▸ h.pics
  | nmi hcur σ =>
    exact .returned (h.kernel.withCr2 _) (h.mode.withCr2 _) h.pics
  | portOut hcur hok σ =>
    rw [outs_eq]
    exact
      { kernel := h.kernel.withCpu
        pics := serviceable_outs h.pics hspare
        mode := h.mode.frame rfl rfl h.mode.shadow }
  | portIn hcur hok hreads σ =>
    subst hcur
    have hm : UserMode s _ := h.mode
    exact
      { kernel := h.kernel.withCpu
        pics := h.pics.reads hreads
        mode := hm.withCpu ⟨hm.regs.cs, hm.regs.ss, hm.regs.flags⟩ hm.shadow rfl }

/-- The invariant over runs, and who runs at the end. -/
theorem Inv.run {es : List Event} (h : Inv img s cur) (hspare : ∀ e ∈ es, SparesPics e)
    (hrun : Lts.run (step img) s es = some s') : Inv img s' (es.foldl taskAfter cur) := by
  induction es generalizing s cur with
  | nil => exact (Lts.run_nil.mp hrun) ▸ h
  | cons e es ih =>
    obtain ⟨u, hstep, hrest⟩ := Lts.run_cons.mp hrun
    have hu := (effect_of_step h hstep).inv h (hspare e (List.mem_cons_self ..))
    exact ih hu (fun e' he' => hspare e' (List.mem_cons_of_mem _ he')) hrest

end Machine

end SecOS
