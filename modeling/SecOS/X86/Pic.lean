-- SUMMARY: A pair of cascaded 8259A interrupt controllers: initialisation and operation words, priorities, in-service bits, end of interrupt, and polls.
import SecOS.X86.Bitfield

/-!
# 8259A

One controller answers at two ports: the command port takes ICW1, OCW2 and OCW3,
the data port takes the remaining initialisation words and the mask. Two
controllers are cascaded through an input of the first. Requests that are
pending are not part of the state: a line may ask for service at any time, and
`accept` says whether the processor would take it now. A request is acknowledged
by the processor, or by the read that follows a poll command.
-/

namespace X86

/-- Which initialisation word the data port expects next. -/
inductive PicInit where
  | ready
  | icw2
  | icw3
  | icw4
  deriving DecidableEq

structure Pic where
  /-- In-service register. -/
  isr : BitVec 8
  /-- Interrupt mask register. -/
  imr : BitVec 8
  /-- Vector of input 0. -/
  base : BitVec 8
  /-- The inputs that carry a slave, or the slave's own input number. -/
  icw3 : BitVec 8
  autoEoi : Bool
  /-- Special fully nested mode: a slave may interrupt itself. -/
  nested : Bool
  init : PicInit
  single : Bool
  needIcw4 : Bool
  /-- The input of lowest priority. -/
  lowest : BitVec 3
  /-- In automatic mode, what is acknowledged becomes the lowest. -/
  rotate : Bool
  /-- Special mask mode: an input that is masked holds no other up. -/
  specialMask : Bool
  /-- The next read is a poll. -/
  poll : Bool
  deriving DecidableEq

namespace Pic

def bit (n : Nat) : BitVec 8 := 1#8 <<< n

/-- How many inputs come before input `n` in the order of priority. -/
def rank (p : Pic) (n : Nat) : Nat := (n + 7 - p.lowest.toNat) % 8

/-- The input that `k` others come before. -/
def ranked (p : Pic) (k : Nat) : Nat := (p.lowest.toNat + 1 + k) % 8

/-- Input `n` is in service, and counts. -/
def inService (p : Pic) (n : Nat) : Bool :=
  p.isr.getLsbD n && !(p.specialMask && p.imr.getLsbD n)

/-- Input `k` in service holds up a request at input `n`. -/
def holdsUp (p : Pic) (k n : Nat) : Bool :=
  p.inService k && p.rank k ≤ p.rank n && !(p.nested && k == n && p.icw3.getLsbD n)

/-- A request at input `n` must wait: it is masked, or an input of at least its
priority is in service. -/
def blocked (p : Pic) (n : Nat) : Bool :=
  p.imr.getLsbD n || (List.range 8).any fun k => p.holdsUp k n

/-- Input `n` goes into service. -/
def serve (p : Pic) (n : Nat) : Pic := { p with isr := p.isr ||| bit n }

def acknowledge (p : Pic) (n : Nat) : Pic :=
  if p.autoEoi = true then if p.rotate then { p with lowest := BitVec.ofNat 3 n } else p
  else p.serve n

/-- The input in service that comes first in the order of priority. -/
def highest (p : Pic) : Option Nat := ((List.range 8).map p.ranked).find? p.inService

/-- Input `n` is no longer in service. -/
def clear (p : Pic) (n : Nat) : Pic := { p with isr := p.isr &&& ~~~(bit n) }

/-- The end of interrupt that names no input. -/
def endOfInterrupt (p : Pic) : Pic :=
  match p.highest with
  | some n => p.clear n
  | none => p

def writeOcw2 (p : Pic) (v : BitVec 8) : Pic :=
  let level := field v 0 3
  match (field v 5 3).toNat with
  | 0 => { p with rotate := false }
  | 1 => p.endOfInterrupt
  | 3 => p.clear level.toNat
  | 4 => { p with rotate := true }
  | 5 =>
    match p.highest with
    | some n => { p.clear n with lowest := BitVec.ofNat 3 n }
    | none => p
  | 6 => { p with lowest := level }
  | 7 => { p.clear level.toNat with lowest := level }
  | _ => p

def writeOcw3 (p : Pic) (v : BitVec 8) : Pic :=
  { p with
    poll := p.poll || v.getLsbD 2
    specialMask := if v.getLsbD 6 then v.getLsbD 5 else p.specialMask }

def writeCommand (p : Pic) (v : BitVec 8) : Pic :=
  if v.getLsbD 4 then
    { p with
      isr := 0, imr := 0, autoEoi := false, nested := false, init := .icw2
      single := v.getLsbD 1, needIcw4 := v.getLsbD 0, lowest := 7, rotate := false
      specialMask := false, poll := false }
  else if v.getLsbD 3 then p.writeOcw3 v
  else p.writeOcw2 v

def afterIcw3 (p : Pic) : PicInit := if p.needIcw4 then .icw4 else .ready

def writeData (p : Pic) (v : BitVec 8) : Pic :=
  match p.init with
  | .ready => { p with imr := v }
  | .icw2 =>
    { p with base := v &&& 0xf8, init := if p.single then p.afterIcw3 else .icw3 }
  | .icw3 => { p with icw3 := v, init := p.afterIcw3 }
  | .icw4 => { p with autoEoi := v.getLsbD 1, nested := v.getLsbD 4, init := .ready }

/-- A read at either port gives `v`. After a poll command bit 7 says whether a request was
waiting, the low bits say at which input, and the read acknowledges it: no read gives an
input whose request must wait. Otherwise a read changes nothing. -/
def read (p : Pic) (v : BitVec 8) : Option Pic :=
  if !p.poll then some p
  else if v.getLsbD 7 then
    let n := (field v 0 3).toNat
    if p.blocked n then none else some { p.acknowledge n with poll := false }
  else some { p with poll := false }

variable {p : Pic} {k n : Nat}

/-! ## Priorities -/

theorem getLsbD_bit (hk : k < 8) : (bit n).getLsbD k = decide (k = n) := by
  simp only [bit, BitVec.getLsbD_shiftLeft, BitVec.getLsbD_one]
  rw [Bool.eq_iff_iff]
  simp only [Bool.and_eq_true, Bool.not_eq_true', decide_eq_true_eq, decide_eq_false_iff_not]
  omega

theorem rank_lt (p : Pic) (n : Nat) : p.rank n < 8 := Nat.mod_lt _ (by decide)

theorem ranked_rank (hn : n < 8) : p.ranked (p.rank n) = n := by
  have := p.lowest.isLt
  simp only [ranked, rank]
  omega

theorem rank_ranked (hk : k < 8) : p.rank (p.ranked k) = k := by
  have := p.lowest.isLt
  simp only [ranked, rank]
  omega

/-- What is first in service is known by what comes before it. -/
theorem highest_eq_some (hn : n < 8) (hserved : p.inService n = true)
    (hfirst : ∀ k < 8, p.rank k < p.rank n → p.inService k = false) : p.highest = some n := by
  have hlen : p.rank n < ((List.range 8).map p.ranked).length := by
    simpa using p.rank_lt n
  refine List.find?_eq_some_iff_getElem.mpr ⟨hserved, p.rank n, hlen, ?_, fun j hj => ?_⟩
  · simpa using ranked_rank hn
  · have hj8 : j < 8 := hj.trans (p.rank_lt n)
    have hbefore : p.rank (p.ranked j) < p.rank n := by rwa [rank_ranked hj8]
    have hnot := hfirst (p.ranked j) (Nat.mod_lt _ (by decide)) hbefore
    simpa using hnot

/-! ## End of interrupt -/

theorem acknowledge_eq (h : p.autoEoi = false) : p.acknowledge n = p.serve n :=
  if_neg (by rw [h]; exact Bool.false_ne_true)

/-- A request that need not wait comes before everything that is in service. -/
theorem not_blocked (h : p.blocked n = false) (hnested : p.nested = false) :
    p.imr.getLsbD n = false ∧ ∀ k < 8, p.rank k ≤ p.rank n → p.inService k = false := by
  simp only [blocked, Bool.or_eq_false_iff, List.any_eq_false, List.mem_range, holdsUp, hnested,
    Bool.false_and, Bool.not_false, Bool.and_true, Bool.and_eq_true, decide_eq_true_eq,
    not_and] at h
  refine ⟨h.1, fun k hk hle => ?_⟩
  by_contra hserved
  exact h.2 k hk (Bool.eq_true_of_not_eq_false hserved) hle

theorem inService_serve (hk : k < 8) :
    (p.serve n).inService k
      = (p.inService k || decide (k = n) && !(p.specialMask && p.imr.getLsbD k)) := by
  simp only [inService, serve, BitVec.getLsbD_or, getLsbD_bit hk, Bool.and_or_distrib_right]

/-- Its end takes out of service what its acknowledgement put into service. -/
theorem endOfInterrupt_serve (hn : n < 8) (hnested : p.nested = false)
    (h : p.blocked n = false) : (p.serve n).endOfInterrupt = p := by
  obtain ⟨himr, hbefore⟩ := not_blocked h hnested
  have hisr : p.isr.getLsbD n = false := by
    have hself := hbefore n hn le_rfl
    simpa [inService, himr] using hself
  have hhighest : (p.serve n).highest = some n := by
    refine highest_eq_some hn ?_ fun k hk hlt => ?_
    · simp [inService_serve hn, himr]
    · have hne : k ≠ n := fun heq => by subst heq; exact Nat.lt_irrefl _ hlt
      simp [inService_serve hk, hbefore k hk (Nat.le_of_lt hlt), hne]
  have hback : (p.isr ||| bit n) &&& ~~~(bit n) = p.isr := by
    apply BitVec.eq_of_getLsbD_eq
    intro k hk
    by_cases hkn : k = n
    · subst hkn
      simp [hisr, getLsbD_bit hk]
    · simp only [BitVec.getLsbD_and, BitVec.getLsbD_or, BitVec.getLsbD_not, getLsbD_bit hk, hkn,
        hk, decide_false, decide_true, Bool.or_false, Bool.not_false, Bool.and_true]
  have hclear : (p.serve n).endOfInterrupt = (p.serve n).clear n := by
    rw [endOfInterrupt, hhighest]
  rw [hclear]
  simp only [clear, serve, hback]

/-! ## Nothing in service -/

theorem highest_of_isr (h : p.isr = 0) : p.highest = none := by
  refine List.find?_eq_none.mpr fun k _ => ?_
  simp [inService, h]

theorem endOfInterrupt_of_isr (h : p.isr = 0) : p.endOfInterrupt = p := by
  rw [endOfInterrupt, highest_of_isr h]

/-- A command other than ICW1 and a poll leaves an idle controller idle. -/
theorem writeCommand_of_isr {v : BitVec 8} (hisr : p.isr = 0) (hpoll : p.poll = false)
    (h4 : v.getLsbD 4 = false) (h32 : v.getLsbD 3 = true → v.getLsbD 2 = false) :
    (p.writeCommand v).isr = 0 ∧ (p.writeCommand v).poll = false := by
  have hclear (n : Nat) : (p.clear n).isr = 0 := by simp [clear, hisr]
  rw [writeCommand, if_neg (by rw [h4]; exact Bool.false_ne_true)]
  split
  · next h3 => exact ⟨hisr, by rw [writeOcw3, hpoll, h32 h3, Bool.or_false]⟩
  · rw [writeOcw2]
    split
    · exact ⟨hisr, hpoll⟩
    · rw [endOfInterrupt_of_isr hisr]
      exact ⟨hisr, hpoll⟩
    · exact ⟨hclear _, hpoll⟩
    · exact ⟨hisr, hpoll⟩
    · rw [highest_of_isr hisr]
      exact ⟨hisr, hpoll⟩
    · exact ⟨hisr, hpoll⟩
    · exact ⟨hclear _, hpoll⟩
    · exact ⟨hisr, hpoll⟩

end Pic

structure Pics where
  master : Pic
  slave : Pic
  deriving DecidableEq

namespace Pics

def masterPort : BitVec 16 := 0x20
def slavePort : BitVec 16 := 0xa0

/-- A byte written to a port; ports of other devices leave the controllers alone. -/
def out (p : Pics) (port : BitVec 16) (v : BitVec 8) : Pics :=
  if port = masterPort then { p with master := p.master.writeCommand v }
  else if port = masterPort + 1 then { p with master := p.master.writeData v }
  else if port = slavePort then { p with slave := p.slave.writeCommand v }
  else if port = slavePort + 1 then { p with slave := p.slave.writeData v }
  else p

/-- A byte read from a port; `none` if the port cannot answer so. -/
def read (p : Pics) (port : BitVec 16) (v : BitVec 8) : Option Pics :=
  if port = masterPort ∨ port = masterPort + 1 then
    (p.master.read v).map fun master => { p with master }
  else if port = slavePort ∨ port = slavePort + 1 then
    (p.slave.read v).map fun slave => { p with slave }
  else some p

/-- Bytes read from neighbouring ports. -/
def reads (p : Pics) (port : BitVec 16) : List (BitVec 8) → Option Pics
  | [] => some p
  | v :: vs => (p.read port v).bind fun p => p.reads (port + 1) vs

/-- The master's input that the slave hangs on. -/
def cascade (p : Pics) : Nat := (field p.slave.icw3 0 3).toNat

/-- Line `irq` asks for service and the processor acknowledges: the new state of
the controllers and the vector they deliver, or `none` while the line must wait. -/
def accept (p : Pics) (irq : Nat) : Option (Pics × BitVec 8) :=
  if irq < 8 then
    if p.master.icw3.getLsbD irq || p.master.blocked irq then none
    else some ({ p with master := p.master.acknowledge irq },
      p.master.base + BitVec.ofNat 8 irq)
  else if irq < 16 then
    if !p.master.icw3.getLsbD p.cascade || p.master.blocked p.cascade
        || p.slave.blocked (irq - 8) then none
    else some ({ master := p.master.acknowledge p.cascade, slave := p.slave.acknowledge (irq - 8) },
      p.slave.base + BitVec.ofNat 8 (irq - 8))
  else none

/-- Nothing is in service at either controller. -/
def Idle (p : Pics) : Prop := p.master.isr = 0 ∧ p.slave.isr = 0

end Pics

end X86
