-- SUMMARY: Output on the serial line: the polling loop of the UART driver, and printf as the formatter followed by it.
import SecOS.Kernel.Vsnprintf

/-!
# Serial line

`uart_write` polls the line status register and sends one byte each time the transmit
register is empty. The values of the status register are whatever the device gives,
one for every read. `__vprintf` formats into a static buffer and sends what is in it,
but for the terminating zero.
-/

namespace SecOS

open X86

/-! ## Ports -/

def serialCom1 : BitVec 16 := 0x3f8

/-- `SERIAL_TX` -/
def serialTx (base : BitVec 16) : BitVec 16 := base

/-- `SERIAL_LSR` -/
def serialLsr (base : BitVec 16) : BitVec 16 := base + 5

def serialLsrThre : Byte := 0x20

/-- `__uart_can_send`, of the value read. -/
def uartCanSend (status : Byte) : Bool := status &&& serialLsrThre != 0

inductive IoEvent where
  | inb (port : BitVec 16) (value : Byte)
  | outb (port : BitVec 16) (value : Byte)
  deriving DecidableEq

/-! ## The polling loop -/

/-- The loop of `__uart_write`: bytes sent, and what has happened on the ports. -/
structure UartTx where
  sz : Nat
  trace : List IoEvent

/-- One time through the loop, with the value that the status register has. -/
def uartWriteStep (port : BitVec 16) (data : Nat → Byte) (tx : UartTx) (status : Byte) : UartTx :=
  let trace := tx.trace ++ [.inb (serialLsr port) status]
  if uartCanSend status then
    { sz := tx.sz + 1, trace := trace ++ [.outb (serialTx port) (data tx.sz)] }
  else { tx with trace }

/-- `__uart_write` of `max` bytes after `k` times through the loop, or when it has
ended before. -/
def uartWrite (port : BitVec 16) (data : Nat → Byte) (max : Nat) (lsr : Nat → Byte) : Nat → UartTx
  | 0 => { sz := 0, trace := [] }
  | k + 1 =>
    let tx := uartWrite port data max lsr k
    if tx.sz < max then uartWriteStep port data tx (lsr k) else tx

/-! ## printf -/

def sizeofVprintBuffer : Nat := 1024

structure Vprintf where
  /-- `vprint_buffer` -/
  buffer : Nat → Byte
  retval : Nat
  /-- The second argument of `uart_write`. -/
  count : Nat

/-- `__vprintf` up to the call of `uart_write`: the subtraction wraps. -/
def vprintf (mem : Mem) (vprintBuffer : Nat → Byte) (format : List Byte) (params : Word) :
    Except Halt Vprintf := do
  let (buffer, retval) ← vsnprintf mem vprintBuffer sizeofVprintBuffer format params
  return { buffer, retval, count := (BitVec.ofNat 32 retval - 1).toNat }

/-- `debug` is another name for it. `params` is the address of the first argument behind
the format. -/
def printf (mem : Mem) (vprintBuffer : Nat → Byte) (format : List Byte) (params : Word) :
    Except Halt Vprintf :=
  vprintf mem vprintBuffer format params

/-- The call of `uart_write` in `__vprintf`. -/
def Vprintf.uart (v : Vprintf) (lsr : Nat → Byte) (k : Nat) : UartTx :=
  uartWrite serialCom1 v.buffer v.count lsr k

/-! ## What is sent -/

/-- The bytes written to a port. -/
def written (port : BitVec 16) (trace : List IoEvent) : List Byte :=
  trace.filterMap fun
    | .outb p value => if p = port then some value else none
    | .inb _ _ => none

/-- Every byte sent follows a read of the status that found the register empty. -/
def Polled (port : BitVec 16) (trace : List IoEvent) : Prop :=
  ∀ pre value post, trace = pre ++ .outb (serialTx port) value :: post →
    ∃ pre' status, pre = pre' ++ [.inb (serialLsr port) status] ∧ uartCanSend status = true

/-- The polling loop has sent `tx.sz` bytes of `data`, from its start. -/
structure Sending (port : BitVec 16) (data : Nat → Byte) (max : Nat) (tx : UartTx) : Prop where
  le : tx.sz ≤ max
  written : written (serialTx port) tx.trace = (List.range tx.sz).map data
  polled : Polled port tx.trace

variable {port : BitVec 16} {data : Nat → Byte} {max : Nat} {lsr : Nat → Byte} {tx : UartTx}
variable {trace : List IoEvent} {status value : Byte} {e : IoEvent}

theorem written_append (port : BitVec 16) (t t' : List IoEvent) :
    written port (t ++ t') = written port t ++ written port t' := List.filterMap_append

theorem Polled.nil : Polled port [] := by
  intro pre value post h
  simp at h

theorem Polled.read (h : Polled port trace) (status : Byte) :
    Polled port (trace ++ [.inb (serialLsr port) status]) := by
  intro pre value post heq
  rcases List.eq_nil_or_concat post with rfl | ⟨post', e, rfl⟩
  · have hlast := (List.append_inj' heq rfl).2
    simp at hlast
  · rw [List.concat_eq_append, ← List.cons_append, ← List.append_assoc] at heq
    exact h pre value post' (List.append_inj' heq rfl).1

theorem Polled.send (h : Polled port trace) (hthre : uartCanSend status = true) (value : Byte) :
    Polled port (trace ++ [.inb (serialLsr port) status] ++ [.outb (serialTx port) value]) := by
  intro pre value' post heq
  rcases List.eq_nil_or_concat post with rfl | ⟨post', e, rfl⟩
  · exact ⟨trace, status, (List.append_inj' heq rfl).1.symm, hthre⟩
  · rw [List.concat_eq_append, ← List.cons_append, ← List.append_assoc] at heq
    exact h.read status pre value' post' (List.append_inj' heq rfl).1

theorem Sending.step (h : Sending port data max tx) (hlt : tx.sz < max) (status : Byte) :
    Sending port data max (uartWriteStep port data tx status) := by
  unfold uartWriteStep
  simp only
  split
  · next hthre =>
    refine ⟨hlt, ?_, h.polled.send hthre _⟩
    simp only
    rw [written_append, written_append, h.written, List.range_succ, List.map_append]
    simp [SecOS.written]
  · refine ⟨h.le, ?_, h.polled.read status⟩
    simp only
    rw [written_append, h.written]
    simp [SecOS.written]

theorem sending_uartWrite (port : BitVec 16) (data : Nat → Byte) (max : Nat) (lsr : Nat → Byte)
    (k : Nat) : Sending port data max (uartWrite port data max lsr k) := by
  induction k with
  | zero => exact ⟨Nat.zero_le max, rfl, Polled.nil⟩
  | succ k ih =>
    unfold uartWrite
    simp only
    split
    · next hlt => exact ih.step hlt (lsr k)
    · exact ih

/-- The loop ends once the status has found the register empty `max` times. -/
theorem sz_uartWrite (port : BitVec 16) (data : Nat → Byte) (max : Nat) (lsr : Nat → Byte)
    (k : Nat) :
    (uartWrite port data max lsr k).sz
      = min max ((List.range k).countP fun i => uartCanSend (lsr i)) := by
  induction k with
  | zero => simp [uartWrite]
  | succ k ih =>
    rw [List.range_succ, List.countP_append, List.countP_singleton]
    unfold uartWrite uartWriteStep
    cases hsend : uartCanSend (lsr k) with
    | false =>
      simp only [Bool.false_eq_true, if_false, Nat.add_zero]
      split <;> exact ih
    | true =>
      simp only [if_true]
      split
      · next hlt =>
        simp only
        omega
      · omega

/-! ## printf on the line -/

variable {mem : Mem} {params : Word} {format : List Byte} {ds : List Directive}
variable {tail : Option (List Modifier)}

/-- The formatter always leaves a terminating zero, so one byte less can be sent. -/
theorem vprintf_eq (mem : Mem) (params : Word) (vprintBuffer : Nat → Byte)
    (hsplit : splitFormat format = some (ds, tail)) :
    ∃ v, vprintf mem vprintBuffer format params = .ok v ∧ 1 ≤ v.retval ∧
      v.retval - 1 = v.count ∧
      (List.range v.count).map v.buffer = (renderAll mem params ds).take 1023 := by
  let k := min (roomFor sizeofVprintBuffer) (renderAll mem params ds).length
  obtain ⟨data', hcall, hstored⟩ := vsnprintf_stored mem params (valid_of_splitFrom hsplit) tail
    vprintBuffer sizeofVprintBuffer
  rw [← text_splitFormat hsplit] at hcall
  have hroom : roomFor sizeofVprintBuffer = 1023 := rfl
  have hk : k ≤ 1023 := by
    simp only [k, hroom]
    omega
  have hcount : (BitVec.ofNat 32 (k + 1) - 1).toNat = k := by
    have hof : (BitVec.ofNat 32 (k + 1)).toNat = k + 1 :=
      (BitVec.toNat_ofNat _ _).trans (Nat.mod_eq_of_lt (by omega))
    bv_omega
  refine ⟨⟨data', k + 1, (BitVec.ofNat 32 (k + 1) - 1).toNat⟩, ?_, Nat.le_add_left 1 k, ?_, ?_⟩
  · rw [vprintf, hcall]
    rfl
  · exact hcount.symm
  · simp only [hcount]
    refine List.ext_getElem ?_ fun i hi hi' => ?_
    · rw [List.length_map, List.length_range, List.length_take, ← hroom]
    · rw [List.length_map, List.length_range] at hi
      have hlen : ((renderAll mem params ds).take k).length = k := by
        rw [List.length_take]
        simp only [k]
        omega
      have htext := hstored.text i (by rw [hlen]; exact hi)
      rw [List.getElem_map, List.getElem_range, htext, List.getElem_take, List.getElem_take]

/-- `printf` sends the first 1023 bytes of what it renders, in order, each after a read
of the status that found the register empty, and no zero behind them, whatever the
device answers and when. -/
theorem printf_sends (mem : Mem) (params : Word) (vprintBuffer : Nat → Byte) (lsr : Nat → Byte)
    (hsplit : splitFormat format = some (ds, tail)) :
    ∃ v, printf mem vprintBuffer format params = .ok v ∧
      1 ≤ v.retval ∧ v.count = v.retval - 1 ∧
      (∀ k moment, moment <+: (v.uart lsr k).trace →
        written (serialTx serialCom1) moment <+: (renderAll mem params ds).take 1023) ∧
      (∀ k, Polled serialCom1 (v.uart lsr k).trace) ∧
      (∀ k, v.count ≤ (v.uart lsr k).sz →
        written (serialTx serialCom1) (v.uart lsr k).trace
          = (renderAll mem params ds).take 1023) ∧
      (∀ k, v.count ≤ ((List.range k).countP fun i => uartCanSend (lsr i)) →
        v.count ≤ (v.uart lsr k).sz) := by
  obtain ⟨v, hv, hret, hcount, hbuffer⟩ := vprintf_eq mem params vprintBuffer hsplit
  have hsending (k : Nat) : Sending serialCom1 v.buffer v.count (v.uart lsr k) :=
    sending_uartWrite serialCom1 v.buffer v.count lsr k
  have hall (k : Nat) : written (serialTx serialCom1) (v.uart lsr k).trace
      <+: (renderAll mem params ds).take 1023 := by
    have hle := (hsending k).le
    have hrange : List.range (v.uart lsr k).sz = (List.range v.count).take (v.uart lsr k).sz := by
      rw [List.take_range, Nat.min_eq_left hle]
    rw [(hsending k).written, hrange, List.map_take, hbuffer]
    exact List.take_prefix _ _
  refine ⟨v, hv, hret, hcount.symm, ?_, fun k => (hsending k).polled, ?_, ?_⟩
  · rintro k moment ⟨rest, hrest⟩
    refine List.IsPrefix.trans ?_ (hall k)
    rw [← hrest, written_append]
    exact List.prefix_append _ _
  · intro k hdone
    have hsz : (v.uart lsr k).sz = v.count := Nat.le_antisymm (hsending k).le hdone
    rw [← hbuffer, ← hsz]
    exact (hsending k).written
  · intro k hk
    rw [Vprintf.uart, sz_uartWrite]
    omega

/-- `"counter: %u\n"` on a line that is ready at every other read. -/
theorem printf_sends_sample :
    let lsr : Nat → Byte := fun k => if k % 2 = 0 then 0x01 else 0x60
    ∃ ds, splitFormat ("counter: %u\n".toList.map chr) = some (ds, none) ∧
    ∃ v, printf (fun _ => 0) (fun _ => 0) ("counter: %u\n".toList.map chr) 0x1000 = .ok v ∧
      (∀ k, v.count ≤ (v.uart lsr k).sz →
        written (serialTx serialCom1) (v.uart lsr k).trace
          = (renderAll (fun _ => 0) 0x1000 ds).take 1023) := by
  intro lsr
  have hsplit : splitFormat ("counter: %u\n".toList.map chr) = some
      (("counter: ".toList.map fun c => .literal (chr c)) ++
        [.conversion [] .u, .literal (chr '\n')], none) := by decide +kernel
  obtain ⟨v, hv, -, -, -, -, hdone, -⟩ := printf_sends (fun _ => 0) 0x1000 (fun _ => 0) lsr hsplit
  exact ⟨_, hsplit, v, hv, hdone⟩

end SecOS
