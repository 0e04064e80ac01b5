-- SUMMARY: How the kernel programs the interrupt controllers, and what an accepted interrupt and its end do to them afterwards.
import SecOS.X86.Pic

/-!
# Interrupt controllers of the kernel

`pic_init` writes the four initialisation words of both controllers. From then on
the kernel writes nothing but non-specific ends of interrupt.
-/

namespace SecOS

open X86

def pic1 : BitVec 16 := 0x20
def pic2 : BitVec 16 := 0xa0
def picEoi : BitVec 8 := 0x20

def picInit (p : Pics) : Pics :=
  let icw1 : BitVec 8 := 0x11
  let p := p.out pic1 icw1
  let p := p.out pic2 icw1
  let icw2 : BitVec 8 := 32
  let p := p.out (pic1 + 1) icw2
  let icw2 : BitVec 8 := 32 + 8
  let p := p.out (pic2 + 1) icw2
  -- irq2 of the master, then the number of the slave
  let icw3 : BitVec 8 := setField 0#8 2 1#1
  let p := p.out (pic1 + 1) icw3
  let icw3 : BitVec 8 := setField 0#8 0 2#3
  let p := p.out (pic2 + 1) icw3
  let icw4 : BitVec 8 := 1
  let p := p.out (pic1 + 1) icw4
  p.out (pic2 + 1) icw4

/-- A controller just after its initialisation words. -/
def picReady (base icw3 : BitVec 8) : Pic where
  isr := 0
  imr := 0
  base := base
  icw3 := icw3
  autoEoi := false
  nested := false
  init := .ready
  single := false
  needIcw4 := true
  lowest := 7
  rotate := false
  specialMask := false
  poll := false

/-- Both controllers as `pic_init` leaves them. -/
def picsReady : Pics := ⟨picReady 32 4, picReady 40 2⟩

/-- `pic_init` brings the controllers to one state, whatever they were doing. -/
theorem picInit_eq (p : Pics) : picInit p = picsReady := by
  obtain ⟨master, slave⟩ := p
  rfl

/-! ## Controllers that serve the kernel -/

/-- A controller that the kernel has initialised, whatever it has been told since short of
another ICW1. -/
structure Initialised (p : Pic) (base icw3 : BitVec 8) : Prop where
  base : p.base = base
  icw3 : p.icw3 = icw3
  autoEoi : p.autoEoi = false
  nested : p.nested = false
  init : p.init = .ready

structure Serviceable (p : Pics) : Prop where
  master : Initialised p.master 32 4
  slave : Initialised p.slave 40 2

theorem initialised_picReady (base icw3 : BitVec 8) : Initialised (picReady base icw3) base icw3 :=
  ⟨rfl, rfl, rfl, rfl, rfl⟩

theorem serviceable_picsReady : Serviceable picsReady :=
  ⟨initialised_picReady 32 4, initialised_picReady 40 2⟩

/-- The vector of line `irq`. -/
def irqVector (irq : Nat) : Nat := 32 + irq

theorem irqVector_lt {irq : Nat} (h : irq < 16) : irqVector irq < 256 := by
  simp only [irqVector]
  omega

theorem toNat_irqVector {irq : Nat} (h : irq < 16) :
    (BitVec.ofNat 8 (irqVector irq)).toNat = irqVector irq := by
  rw [BitVec.toNat_ofNat]
  exact Nat.mod_eq_of_lt (irqVector_lt h)

/-- The controllers once line `irq` has been acknowledged. -/
def servicing (p : Pics) (irq : Nat) : Pics :=
  if irq < 8 then { p with master := p.master.serve irq }
  else { master := p.master.serve 2, slave := p.slave.serve (irq - 8) }

/-- The line asks in vain: it is masked, or something that comes before it is in service. -/
def blockedLine (p : Pics) (irq : Nat) : Bool :=
  if irq < 8 then p.master.blocked irq else p.master.blocked 2 || p.slave.blocked (irq - 8)

/-! ## Initialised controllers stay so -/

namespace Initialised

variable {p : Pic} {base icw3 v : BitVec 8} {n : Nat}

/-- What a controller is asked to serve, mask, rotate or poll is not its initialisation. -/
theorem keep (h : Initialised p base icw3) {isr imr : BitVec 8} {lowest : BitVec 3}
    {rotate specialMask poll : Bool} :
    Initialised { p with isr, imr, lowest, rotate, specialMask, poll } base icw3 :=
  ⟨h.base, h.icw3, h.autoEoi, h.nested, h.init⟩

theorem serve (h : Initialised p base icw3) : Initialised (p.serve n) base icw3 := h.keep

theorem endOfInterrupt (h : Initialised p base icw3) :
    Initialised p.endOfInterrupt base icw3 := by
  rw [Pic.endOfInterrupt]
  split
  · exact h.keep
  · exact h

/-- Only a first initialisation word can undo the initialisation. -/
theorem writeCommand (h : Initialised p base icw3) (hv : v.getLsbD 4 = false) :
    Initialised (p.writeCommand v) base icw3 := by
  rw [Pic.writeCommand, if_neg (by rw [hv]; exact Bool.false_ne_true)]
  split
  · exact h.keep
  rw [Pic.writeOcw2]
  split
  · exact h.keep
  · exact h.endOfInterrupt
  · exact h.keep
  · exact h.keep
  · split
    · exact h.keep
    · exact h
  · exact h.keep
  · exact h.keep
  · exact h

theorem writeData (h : Initialised p base icw3) : Initialised (p.writeData v) base icw3 := by
  have hmask : p.writeData v = { p with imr := v } := by rw [Pic.writeData, h.init]
  exact hmask ▸ h.keep

theorem read {q : Pic} (h : Initialised p base icw3) (hread : p.read v = some q) :
    Initialised q base icw3 := by
  rw [Pic.read] at hread
  split at hread
  · exact Option.some.inj hread ▸ h
  split at hread
  · simp only [Pic.acknowledge_eq h.autoEoi] at hread
    split at hread
    · cases hread
    · exact Option.some.inj hread ▸ h.keep
  · exact Option.some.inj hread ▸ h.keep

end Initialised

namespace Serviceable

variable {p q : Pics} {irq : Nat} {port : BitVec 16} {v : BitVec 8}

theorem servicing (h : Serviceable p) : Serviceable (servicing p irq) := by
  rw [SecOS.servicing]
  split
  · exact ⟨h.master.serve, h.slave⟩
  · exact ⟨h.master.serve, h.slave.serve⟩

theorem out (h : Serviceable p) (hv : port = pic1 ∨ port = pic2 → v.getLsbD 4 = false) :
    Serviceable (p.out port v) := by
  rw [Pics.out]
  split
  · next hport => exact ⟨h.master.writeCommand (hv (.inl hport)), h.slave⟩
  split
  · exact ⟨h.master.writeData, h.slave⟩
  split
  · next hport => exact ⟨h.master, h.slave.writeCommand (hv (.inr hport))⟩
  split
  · exact ⟨h.master, h.slave.writeData⟩
  · exact h

theorem read (h : Serviceable p) (hread : p.read port v = some q) : Serviceable q := by
  rw [Pics.read] at hread
  split at hread
  · obtain ⟨master, hmaster, rfl⟩ := Option.map_eq_some_iff.mp hread
    exact ⟨h.master.read hmaster, h.slave⟩
  split at hread
  · obtain ⟨slave, hslave, rfl⟩ := Option.map_eq_some_iff.mp hread
    exact ⟨h.master, h.slave.read hslave⟩
  · exact Option.some.inj hread ▸ h

theorem reads {vs : List (BitVec 8)} (h : Serviceable p) (hreads : p.reads port vs = some q) :
    Serviceable q := by
  induction vs generalizing p port with
  | nil => exact Option.some.inj hreads ▸ h
  | cons v vs ih =>
    obtain ⟨p', hread, hrest⟩ := Option.bind_eq_some_iff.mp hreads
    exact ih (h.read hread) hrest

/-! ## Acknowledgement -/

theorem icw3_master (h : Serviceable p) (hirq : irq < 8) :
    p.master.icw3.getLsbD irq = decide (irq = 2) := by
  have hicw3 : ∀ n < 8, (4 : BitVec 8).getLsbD n = decide (n = 2) := by decide
  rw [h.master.icw3]
  exact hicw3 irq hirq

theorem cascade (h : Serviceable p) : p.cascade = 2 := by
  rw [Pics.cascade, h.slave.icw3]
  rfl

/-- Every line but the one the slave hangs on is accepted unless it must wait, and arrives
at its own vector. -/
theorem accept (h : Serviceable p) (irq : Nat) :
    p.accept irq
      = if (irq < 16 ∧ irq ≠ 2) ∧ blockedLine p irq = false then
          some (SecOS.servicing p irq, BitVec.ofNat 8 (irqVector irq))
        else none := by
  by_cases h8 : irq < 8
  · have hlt : irq < 16 := by omega
    have hblocked : blockedLine p irq = p.master.blocked irq := if_pos h8
    have hserving : SecOS.servicing p irq = { p with master := p.master.serve irq } := if_pos h8
    have hvec : p.master.base + BitVec.ofNat 8 irq = BitVec.ofNat 8 (irqVector irq) := by
      rw [h.master.base]
      exact (BitVec.ofNat_add ..).symm
    rw [Pics.accept, if_pos h8, h.icw3_master h8, hblocked, hserving, hvec,
      Pic.acknowledge_eq h.master.autoEoi]
    by_cases h2 : irq = 2
    · simp [h2]
    · cases p.master.blocked irq <;> simp [h2, hlt]
  · by_cases h16 : irq < 16
    · have h2 : irq ≠ 2 := by omega
      have hblocked : blockedLine p irq = (p.master.blocked 2 || p.slave.blocked (irq - 8)) :=
        if_neg h8
      have hserving : SecOS.servicing p irq
          = { master := p.master.serve 2, slave := p.slave.serve (irq - 8) } := if_neg h8
      have hvec : p.slave.base + BitVec.ofNat 8 (irq - 8) = BitVec.ofNat 8 (irqVector irq) := by
        rw [h.slave.base, irqVector, show 32 + irq = 40 + (irq - 8) by omega]
        exact (BitVec.ofNat_add ..).symm
      rw [Pics.accept, if_neg h8, if_pos h16, h.cascade, h.icw3_master (by decide), hblocked,
        hserving, hvec, Pic.acknowledge_eq h.master.autoEoi, Pic.acknowledge_eq h.slave.autoEoi]
      cases p.master.blocked 2 <;> cases p.slave.blocked (irq - 8) <;> simp [h2, h16]
    · simp only [Pics.accept, h8, h16, false_and, if_false]

end Serviceable

/-! ## End of interrupt -/

theorem writeCommand_picEoi (p : Pic) : p.writeCommand picEoi = p.endOfInterrupt := by
  have h4 : picEoi.getLsbD 4 = false := by decide
  have h3 : picEoi.getLsbD 3 = false := by decide
  have h5 : (field picEoi 5 3).toNat = 1 := by decide
  simp only [Pic.writeCommand, Pic.writeOcw2, h4, h3, h5, Bool.false_eq_true, if_false]

theorem out_pic1 (p : Pics) (v : BitVec 8) :
    p.out pic1 v = { p with master := p.master.writeCommand v } := if_pos rfl

theorem out_pic2 (p : Pics) (v : BitVec 8) :
    p.out pic2 v = { p with slave := p.slave.writeCommand v } := rfl

namespace Serviceable

variable {p : Pics} {irq : Nat}

theorem eoi (h : Serviceable p) : Serviceable (p.out pic1 picEoi) := h.out fun _ => by decide

/-- One end of interrupt for the master when the line is its own. -/
theorem eoi_master (h : Serviceable p) (hirq : irq < 8) (hfree : blockedLine p irq = false) :
    (SecOS.servicing p irq).out pic1 picEoi = p := by
  rw [blockedLine, if_pos hirq] at hfree
  rw [SecOS.servicing, if_pos hirq, out_pic1, writeCommand_picEoi]
  simp only [Pic.endOfInterrupt_serve hirq h.master.nested hfree]

/-- One for the slave and one for the master when the line is the slave's. -/
theorem eoi_slave (h : Serviceable p) (hlo : 8 ≤ irq) (hhi : irq < 16)
    (hfree : blockedLine p irq = false) :
    ((SecOS.servicing p irq).out pic2 picEoi).out pic1 picEoi = p := by
  rw [blockedLine, if_neg (by omega), Bool.or_eq_false_iff] at hfree
  rw [SecOS.servicing, if_neg (by omega), out_pic2, out_pic1, writeCommand_picEoi,
    writeCommand_picEoi]
  simp only [Pic.endOfInterrupt_serve (by omega : irq - 8 < 8) h.slave.nested hfree.2,
    Pic.endOfInterrupt_serve (by decide : 2 < 8) h.master.nested hfree.1]

end Serviceable

/-! ## Idle controllers -/

/-- Nothing is in service, and no poll is under way. -/
structure Quiet (p : Pics) : Prop where
  idle : p.Idle
  master : p.master.poll = false
  slave : p.slave.poll = false

theorem quiet_picsReady : Quiet picsReady := ⟨⟨rfl, rfl⟩, rfl, rfl⟩

namespace Quiet

variable {p : Pics} {port : BitVec 16}

/-- An end of interrupt with nothing in service does nothing. -/
theorem eoi (h : Quiet p) : p.out pic1 picEoi = p := by
  rw [out_pic1, writeCommand_picEoi, Pic.endOfInterrupt_of_isr h.idle.1]

/-- Nor does a read when there is no poll. -/
theorem reads (h : Quiet p) (vs : List (BitVec 8)) : p.reads port vs = some p := by
  have hread (port : BitVec 16) (v : BitVec 8) : p.read port v = some p := by
    simp only [Pics.read, Pic.read, h.master, h.slave, Bool.not_false, if_true, Option.map_some,
      ite_self]
  induction vs generalizing port with
  | nil => rfl
  | cons v vs ih => rw [Pics.reads, hread, Option.bind_some, ih]

end Quiet

/-- A command with bit 3 set and bit 4 clear whose bit 2 asks for a poll. -/
def isPoll (v : BitVec 8) : Bool := !v.getLsbD 4 && v.getLsbD 3 && v.getLsbD 2

/-- Short of ICW1 and of a poll command nothing that is written to idle controllers makes
them busy. -/
theorem Quiet.out {p : Pics} (h : Quiet p) {port : BitVec 16} {v : BitVec 8}
    (hp : Serviceable p)
    (hv : port = pic1 ∨ port = pic2 → v.getLsbD 4 = false ∧ isPoll v = false) :
    Quiet (p.out port v) := by
  have hcommand (q : Pic) (hisr : q.isr = 0) (hpoll : q.poll = false)
      (hv : v.getLsbD 4 = false ∧ isPoll v = false) :
      (q.writeCommand v).isr = 0 ∧ (q.writeCommand v).poll = false :=
    Pic.writeCommand_of_isr hisr hpoll hv.1 fun h3 => by
      have hnot := hv.2
      rw [isPoll, hv.1, h3] at hnot
      exact hnot
  have hdata (q : Pic) (hinit : q.init = .ready) (hisr : q.isr = 0) (hpoll : q.poll = false) :
      (q.writeData v).isr = 0 ∧ (q.writeData v).poll = false := by
    rw [Pic.writeData, hinit]
    exact ⟨hisr, hpoll⟩
  rw [Pics.out]
  split
  · next hport =>
    have hq := hcommand _ h.idle.1 h.master (hv (.inl hport))
    exact ⟨⟨hq.1, h.idle.2⟩, hq.2, h.slave⟩
  split
  · have hq := hdata _ hp.master.init h.idle.1 h.master
    exact ⟨⟨hq.1, h.idle.2⟩, hq.2, h.slave⟩
  split
  · next hport =>
    have hq := hcommand _ h.idle.2 h.slave (hv (.inr hport))
    exact ⟨⟨h.idle.1, hq.1⟩, h.master, hq.2⟩
  split
  · have hq := hdata _ hp.slave.init h.idle.2 h.slave
    exact ⟨⟨h.idle.1, hq.1⟩, h.master, hq.2⟩
  · exact h

end SecOS
