-- SUMMARY: Input from the serial line: what calls of uart_read return while bytes keep arriving.
import SecOS.Base.Lts
import SecOS.Kernel.UartInit

/-!
# Serial input

`uart_read` takes bytes as long as the line status register shows one, up to the size of the
caller's buffer. Bytes arrive whenever they like, between any two accesses to the device, and
one that finds no room is dropped or replaces the last one.
-/

namespace SecOS

open X86

namespace UartRx

/-! ## The device -/

/-- The receive buffer, and how many bytes have found no room there. -/
structure Device where
  fifo : List Byte
  lost : Nat

/-- How many bytes there is room for, and whether a byte too many replaces the last one. -/
structure Kind where
  depth : Nat
  overwrite : Bool
  depth_pos : 0 < depth

def Device.arrive (kind : Kind) (d : Device) (c : Byte) : Device :=
  if d.fifo.length < kind.depth then { d with fifo := d.fifo ++ [c] }
  else { fifo := if kind.overwrite then d.fifo.dropLast ++ [c] else d.fifo, lost := d.lost + 1 }

/-- The line status register; `bits` are those that say nothing of received data. -/
def Device.lsr (d : Device) (bits : Byte) : Byte :=
  if d.fifo.isEmpty then bits &&& ~~~serialLsrDataReady else bits ||| serialLsrDataReady

/-- A read of the receive register, which gives `junk` when nothing is there. -/
def Device.rx (d : Device) (junk : Byte) : Byte × Device :=
  match d.fifo with
  | [] => (junk, d)
  | c :: fifo => (c, { d with fifo })

/-! ## uart_read -/

/-- Where the code is in the loop of `__uart_read`, with the bytes stored so far. -/
inductive Pc where
  | idle
  /-- Before the read of the status. -/
  | poll (max : Nat) (data : List Byte)
  /-- Before the read of the byte. -/
  | recv (max : Nat) (data : List Byte)

/-- A call that is over, and what it has left in the device. -/
structure Done where
  max : Nat
  data : List Byte
  left : List Byte

structure Reader where
  device : Device
  pc : Pc
  arrived : List Byte
  calls : List Done

inductive Event where
  | arrive (c : Byte)
  | call (n : Nat)
  /-- The access that the code is at; `value` is what the device is free to choose. -/
  | access (value : Byte)

def step (kind : Kind) (s : Reader) : Event → Option Reader
  | .arrive c => some { s with device := s.device.arrive kind c, arrived := s.arrived ++ [c] }
  | .call n =>
    match s.pc with
    | .idle => some { s with pc := .poll n [] }
    | _ => none
  | .access value =>
    match s.pc with
    | .idle => none
    | .poll max data =>
      if uartCanRecv (s.device.lsr value) && decide (data.length < max) then
        some { s with pc := .recv max data }
      else some { s with pc := .idle, calls := s.calls ++ [⟨max, data, s.device.fifo⟩] }
    | .recv max data =>
      let (c, device) := s.device.rx value
      some { s with device, pc := .poll max (data ++ [c]) }

def start : Reader := ⟨⟨[], 0⟩, .idle, [], []⟩

/-! ## Nothing is lost on the way -/

variable {kind : Kind} {s s' : Reader} {d : Device} {c value : Byte} {e : Event} {es : List Event}

def Pc.data : Pc → List Byte
  | .idle => []
  | .poll _ data | .recv _ data => data

/-- Every byte that was accepted and is still known of, oldest first. -/
def Reader.taken (s : Reader) : List Byte := s.calls.flatMap Done.data ++ s.pc.data

/-- What the code knows of its buffer and of the device. -/
def Pc.Ok (fifo : List Byte) : Pc → Prop
  | .idle => True
  | .poll max data => data.length ≤ max
  | .recv max data => data.length < max ∧ fifo ≠ []

structure Reading (kind : Kind) (s : Reader) : Prop where
  room : s.device.fifo.length ≤ kind.depth
  order : (s.taken ++ s.device.fifo).Sublist s.arrived
  complete : s.device.lost = 0 → s.taken ++ s.device.fifo = s.arrived
  pc : s.pc.Ok s.device.fifo
  calls : ∀ d ∈ s.calls, d.data.length ≤ d.max ∧ (d.data.length < d.max → d.left = [])

theorem uartCanRecv_lsr (d : Device) (bits : Byte) :
    uartCanRecv (d.lsr bits) = !d.fifo.isEmpty := by
  have hclear : ∀ b : Byte, uartCanRecv (b &&& ~~~serialLsrDataReady) = false := by decide +kernel
  have hset : ∀ b : Byte, uartCanRecv (b ||| serialLsrDataReady) = true := by decide +kernel
  unfold Device.lsr
  cases d.fifo.isEmpty with
  | true => exact hclear bits
  | false => exact hset bits

/-- A byte that arrives is the last one, or is lost. -/
theorem arrive_cases (kind : Kind) (d : Device) (c : Byte) :
    (d.fifo.length < kind.depth ∧ d.arrive kind c = ⟨d.fifo ++ [c], d.lost⟩) ∨
      ∃ fifo, d.arrive kind c = ⟨fifo, d.lost + 1⟩ ∧ fifo.length = d.fifo.length ∧
        (fifo = d.fifo ∨ fifo = d.fifo.dropLast ++ [c]) := by
  unfold Device.arrive
  split
  · next h => exact .inl ⟨h, rfl⟩
  · next h =>
    have hpos := kind.depth_pos
    refine .inr ⟨_, rfl, ?_⟩
    split
    · refine ⟨?_, .inr rfl⟩
      rw [List.length_append, List.length_dropLast, List.length_singleton]
      omega
    · exact ⟨rfl, .inl rfl⟩

theorem Pc.Ok.mono {pc : Pc} {fifo fifo' : List Byte} (h : pc.Ok fifo)
    (hne : fifo ≠ [] → fifo' ≠ []) : pc.Ok fifo' := by
  cases pc with
  | idle => trivial
  | poll max data => exact h
  | recv max data => exact ⟨h.1, hne h.2⟩

theorem Reading.arrive (h : Reading kind s) (c : Byte) :
    Reading kind { s with device := s.device.arrive kind c, arrived := s.arrived ++ [c] } := by
  rcases arrive_cases kind s.device c with ⟨hroom, hd⟩ | ⟨fifo, hd, hlen, hfifo⟩
  · refine ⟨?_, ?_, fun hlost => ?_, ?_, h.calls⟩
    · rw [hd, List.length_append, List.length_singleton]
      exact hroom
    · rw [hd, Reader.taken, ← List.append_assoc]
      exact h.order.append (List.Sublist.refl [c])
    · rw [hd] at hlost
      rw [hd, ← h.complete hlost, Reader.taken, Reader.taken, List.append_assoc _ _ [c]]
    · rw [hd]
      exact h.pc.mono fun _ => List.append_ne_nil_of_right_ne_nil _ (List.cons_ne_nil c [])
  · refine ⟨?_, ?_, fun hlost => ?_, ?_, h.calls⟩
    · rw [hd]
      exact hlen ▸ h.room
    · rw [hd]
      rcases hfifo with rfl | rfl
      · exact h.order.trans (List.sublist_append_left _ _)
      · have hlast : (s.taken ++ s.device.fifo.dropLast).Sublist s.arrived :=
          ((List.Sublist.refl _).append (List.dropLast_sublist _)).trans h.order
        have hboth := hlast.append (List.Sublist.refl [c])
        rwa [List.append_assoc] at hboth
    · rw [hd] at hlost
      cases hlost
    · rw [hd]
      refine h.pc.mono fun hne hnil => hne (List.eq_nil_of_length_eq_zero ?_)
      exact hlen.symm.trans (congrArg List.length hnil)

theorem Reading.access (h : Reading kind s) (hstep : step kind s (.access value) = some s') :
    Reading kind s' := by
  have hok := h.pc
  unfold step at hstep
  cases hpc : s.pc with
  | idle =>
    simp only [hpc] at hstep
    cases hstep
  | poll max data =>
    rw [hpc] at hok
    simp only [hpc, uartCanRecv_lsr] at hstep
    have htaken : s.taken = s.calls.flatMap Done.data ++ data := by
      rw [Reader.taken, hpc]
      rfl
    split at hstep
    · next hmore =>
      obtain rfl := Option.some.inj hstep
      rw [Bool.and_eq_true, Bool.not_eq_true', List.isEmpty_eq_false_iff,
        decide_eq_true_eq] at hmore
      have hsame : Reader.taken { s with pc := .recv max data } = s.taken := htaken.symm
      exact ⟨h.room, hsame ▸ h.order, fun hlost => hsame ▸ h.complete hlost,
        ⟨hmore.2, hmore.1⟩, h.calls⟩
    · next hdone =>
      obtain rfl := Option.some.inj hstep
      have hsame : Reader.taken { s with
          pc := .idle, calls := s.calls ++ [⟨max, data, s.device.fifo⟩] } = s.taken := by
        rw [htaken, Reader.taken, List.flatMap_append, List.flatMap_singleton]
        exact List.append_nil _
      refine ⟨h.room, hsame ▸ h.order, fun hlost => hsame ▸ h.complete hlost, trivial, ?_⟩
      intro d hd
      rcases List.mem_append.mp hd with hd | hd
      · exact h.calls d hd
      · obtain rfl := List.mem_singleton.mp hd
        refine ⟨hok, fun hlt => ?_⟩
        by_contra hne
        refine hdone ?_
        rw [Bool.and_eq_true, Bool.not_eq_true', List.isEmpty_eq_false_iff, decide_eq_true_eq]
        exact ⟨hne, hlt⟩
  | recv max data =>
    rw [hpc] at hok
    obtain ⟨hlt, hne⟩ := hok
    obtain ⟨c, fifo, hfifo⟩ := List.exists_cons_of_ne_nil hne
    simp only [hpc, Device.rx, hfifo] at hstep
    obtain rfl := Option.some.inj hstep
    have hsame : Reader.taken { s with
        device := { s.device with fifo }, pc := .poll max (data ++ [c]) } ++ fifo
          = s.taken ++ s.device.fifo := by
      rw [Reader.taken, Reader.taken, hpc, hfifo, List.append_assoc, List.append_assoc]
      simp only [Pc.data, List.append_assoc, List.cons_append, List.nil_append]
    refine ⟨?_, hsame ▸ h.order, fun hlost => hsame ▸ h.complete hlost, ?_, h.calls⟩
    · have hroom := h.room
      rw [hfifo, List.length_cons] at hroom
      exact Nat.le_of_succ_le hroom
    · change (data ++ [c]).length ≤ max
      rw [List.length_append, List.length_singleton]
      exact hlt

theorem Reading.step (h : Reading kind s) (hstep : UartRx.step kind s e = some s') :
    Reading kind s' := by
  cases e with
  | arrive c =>
    obtain rfl := Option.some.inj hstep
    exact h.arrive c
  | call n =>
    cases hpc : s.pc with
    | idle =>
      simp only [UartRx.step, hpc] at hstep
      obtain rfl := Option.some.inj hstep
      have hsame : Reader.taken { s with pc := .poll n [] } = s.taken := by
        rw [Reader.taken, Reader.taken, hpc]
        rfl
      exact ⟨h.room, hsame ▸ h.order, fun hlost => hsame ▸ h.complete hlost, Nat.zero_le n,
        h.calls⟩
    | poll max data =>
      simp only [UartRx.step, hpc] at hstep
      cases hstep
    | recv max data =>
      simp only [UartRx.step, hpc] at hstep
      cases hstep
  | access value => exact h.access hstep

/-! ## The end of a call -/

/-- Accesses that a call may still make. -/
def Pc.rank : Pc → Nat
  | .idle => 0
  | .poll max data => 2 * (max - data.length) + 1
  | .recv max data => 2 * (max - data.length)

/-- What an event costs, and what it may cost: `n` bytes take two accesses each, and the last
read of the status one. -/
def Event.cost : Event → Nat
  | .access _ => 1
  | _ => 0

def Event.budget : Event → Nat
  | .call n => 2 * n + 1
  | _ => 0

/-- Every access brings the call nearer to its end. -/
theorem rank_step (h : Reading kind s) (hstep : step kind s e = some s') :
    e.cost + s'.pc.rank ≤ e.budget + s.pc.rank := by
  have hok := h.pc
  cases e with
  | arrive c =>
    obtain rfl := Option.some.inj hstep
    exact le_refl _
  | call n =>
    cases hpc : s.pc with
    | idle =>
      simp only [step, hpc] at hstep
      obtain rfl := Option.some.inj hstep
      simp only [Event.cost, Event.budget, Pc.rank, List.length_nil]
      omega
    | poll max data =>
      simp only [step, hpc] at hstep
      cases hstep
    | recv max data =>
      simp only [step, hpc] at hstep
      cases hstep
  | access value =>
    cases hpc : s.pc with
    | idle =>
      simp only [step, hpc] at hstep
      cases hstep
    | poll max data =>
      simp only [step, hpc] at hstep
      split at hstep
      all_goals
        obtain rfl := Option.some.inj hstep
        simp only [Event.cost, Event.budget, Pc.rank]
        omega
    | recv max data =>
      rw [hpc] at hok
      simp only [step, hpc] at hstep
      obtain rfl := Option.some.inj hstep
      have hlt := hok.1
      simp only [Event.cost, Event.budget, Pc.rank, List.length_append, List.length_singleton]
      omega

theorem Reading.run (h : Reading kind s) (hrun : Lts.run (UartRx.step kind) s es = some s') :
    Reading kind s' := Lts.run_invariant (fun _ _ _ h hstep => h.step hstep) h hrun

theorem rank_of_run (h : Reading kind s) (hrun : Lts.run (step kind) s es = some s') :
    (es.map Event.cost).sum + s'.pc.rank ≤ (es.map Event.budget).sum + s.pc.rank := by
  induction es generalizing s with
  | nil =>
    rw [Lts.run_nil.mp hrun]
    exact le_refl _
  | cons e es ih =>
    obtain ⟨u, hstep, hrest⟩ := Lts.run_cons.mp hrun
    have hfirst := rank_step h hstep
    have hlater := ih (h.step hstep) hrest
    rw [List.map_cons, List.map_cons, List.sum_cons, List.sum_cons]
    omega

/-- What comes before the next call is all the work of this one. -/
theorem cost_of_call {n : Nat} {mid : List Event} (h : Reading kind s)
    (hmid : ∀ m, .call m ∉ mid) (hrun : Lts.run (step kind) s (.call n :: mid) = some s') :
    (mid.map Event.cost).sum + s'.pc.rank ≤ 2 * n + 1 := by
  obtain ⟨u, hstep, hrest⟩ := Lts.run_cons.mp hrun
  have hrank := rank_of_run (h.step hstep) hrest
  have hbudget : (mid.map Event.budget).sum = 0 := by
    refine List.sum_eq_zero fun b hb => ?_
    obtain ⟨e, he, rfl⟩ := List.mem_map.mp hb
    cases e with
    | call m => exact absurd he (hmid m)
    | arrive | access => rfl
  have hcall : u.pc.rank = 2 * n + 1 := by
    cases hpc : s.pc with
    | idle =>
      simp only [step, hpc] at hstep
      obtain rfl := Option.some.inj hstep
      rfl
    | poll | recv =>
      simp only [step, hpc] at hstep
      cases hstep
  omega

theorem Reading.start : Reading kind start :=
  ⟨Nat.zero_le _, List.Sublist.refl _, fun _ => rfl, trivial, by simp [UartRx.start]⟩

/-- Whatever calls of `uart_read` there are and whenever bytes arrive: the bytes returned, those
of the call in progress and those still in the device are bytes that arrived, in order and none
twice, and all of them if the device has lost none; a call returns no more than it was asked
for, and less only when it has emptied the device; the receive register is read only when a byte
is there; and each call for `n` bytes takes at most `2 * n + 1` accesses. -/
theorem reads_of_run (hrun : Lts.run (step kind) start es = some s) :
    Reading kind s ∧
      ∀ pre n mid post, es = pre ++ .call n :: (mid ++ post) → (∀ m, .call m ∉ mid) →
        (mid.map Event.cost).sum ≤ 2 * n + 1 := by
  refine ⟨Reading.start.run hrun, ?_⟩
  rintro pre n mid post rfl hmid
  obtain ⟨t, hpre, hcalls⟩ := Lts.run_append.mp hrun
  rw [← List.cons_append] at hcalls
  obtain ⟨u, hcall, -⟩ := Lts.run_append.mp hcalls
  have hcost := cost_of_call (Reading.start.run hpre) hmid hcall
  omega

def sampleKind : Kind := ⟨1, true, Nat.one_pos⟩

/-- Two bytes for a device with room for one, and a caller that asks for two. -/
def sampleEvents : List Event :=
  [.call 2, .arrive 0x41, .access 0, .access 0, .arrive 0x42, .access 0, .access 0, .access 0]

def sampleReader : Reader := ⟨⟨[], 0⟩, .idle, [0x41, 0x42], [⟨2, [0x41, 0x42], []⟩]⟩

theorem run_sample : Lts.run (step sampleKind) start sampleEvents = some sampleReader := rfl

theorem reads_sample :
    Reading sampleKind sampleReader ∧
      ∀ pre n mid post, sampleEvents = pre ++ .call n :: (mid ++ post) →
        (∀ m, .call m ∉ mid) → (mid.map Event.cost).sum ≤ 2 * n + 1 :=
  reads_of_run run_sample

end UartRx

end SecOS
