-- SUMMARY: Every call of printf returns or panics, and a panic sends its message, flushes the line and stops for good.
import SecOS.Kernel.Uart

/-!
# Panic

`panic` turns interrupts off, prints, sends 16 zeros to push the message out of the device,
and halts in a loop. The formatter calls it itself on a conversion it does not know, with a
format that it does know.
-/

namespace SecOS

open X86

/-! ## The code -/

/-- What the processor does in `panic`: accesses to ports, and the two instructions of
`force_interrupts_off` and `halt`. -/
inductive Act where
  | io (e : IoEvent)
  | cli
  | hlt
  deriving DecidableEq

/-- The local variables of the loops that `panic` goes through: the bytes sent in
`__uart_write`, and `s` in `uart_flush`. -/
structure Panic where
  sz : Nat
  s : Nat
  trace : List Act

/-- One round of the loop that `panic` is in, with the value that the status register has
if it is read: `__uart_write`, then `uart_flush`, then `while (1) halt()`. -/
def panicStep (data : Nat → Byte) (max : Nat) (p : Panic) (status : Byte) : Panic :=
  let trace := p.trace ++ [.io (.inb (serialLsr serialCom1) status)]
  if p.sz < max then
    if uartCanSend status then
      { p with
        sz := p.sz + 1, trace := trace ++ [.io (.outb (serialTx serialCom1) (data p.sz))] }
    else { p with trace }
  else if p.s ≠ 0 then
    if uartCanSend status then
      { p with s := p.s - 1, trace := trace ++ [.io (.outb (serialTx serialCom1) 0)] }
    else { p with trace }
  else { p with trace := p.trace ++ [.cli, .hlt] }

/-- The first character that the formatter does not know as part of a conversion; `inside`
says whether one has begun. -/
def unsupportedFrom : Bool → List Byte → Option Byte
  | _, [] => none
  | false, c :: format => unsupportedFrom (c == chr '%') format
  | true, c :: format =>
    if modifiers.any fun m => m.char == c then unsupportedFrom true format
    else if convs.any fun v => v.char == c then unsupportedFrom false format
    else some c

def unsupported (format : List Byte) : Option Byte := unsupportedFrom false format

variable {mem mem' : Mem} {len : Nat} {st : FmtState} {c : Byte} {format : List Byte}
  {params params' : Word} {inside : Option (List Modifier)}

theorem renderAll_literals (mem : Mem) (params : Word) (s : List Byte) (ds : List Directive) :
    renderAll mem params (s.map .literal ++ ds) = s ++ renderAll mem params ds := by
  induction s generalizing params with
  | nil => rfl
  | cons c s ih =>
    have hparams : params + BitVec.ofNat 32 (4 * (Directive.literal c).words) = params :=
      BitVec.add_zero params
    rw [List.map_cons, List.cons_append, renderAll, hparams, ih]
    rfl

def ios (trace : List Act) : List IoEvent :=
  trace.filterMap fun
    | .io e => some e
    | .cli => none
    | .hlt => none

/-- The loops of `panic` after some rounds, in `r` of which the device was ready. -/
structure Panicking (v : Vprintf) (r : Nat) (p : Panic) : Prop where
  s_le : p.s ≤ 16
  sent : p.sz + (16 - p.s) = min (v.count + 16) r
  order : p.s < 16 → p.sz = v.count
  sz_le : p.sz ≤ v.count
  written : written (serialTx serialCom1) (ios p.trace)
    = (List.range p.sz).map v.buffer ++ List.replicate (16 - p.s) 0
  polled : Polled serialCom1 (ios p.trace)
  cli : p.trace.head? = some .cli

theorem ios_io (trace : List Act) (e : IoEvent) : ios (trace ++ [.io e]) = ios trace ++ [e] :=
  List.filterMap_append

theorem ios_halt (trace : List Act) : ios (trace ++ [.cli, .hlt]) = ios trace :=
  List.filterMap_append.trans (List.append_nil _)

theorem written_inb (port p : BitVec 16) (b : Byte) : written port [.inb p b] = [] := rfl

theorem written_outb (port : BitVec 16) (b : Byte) : written port [.outb port b] = [b] := by
  simp [written]

theorem head?_append {α : Type} {l l' : List α} {a : α} (h : l.head? = some a) :
    (l ++ l').head? = some a := by
  rw [List.head?_append, h]
  rfl

theorem Panicking.step {v : Vprintf} {r : Nat} {p : Panic} (h : Panicking v r p) (status : Byte) :
    Panicking v (r + if uartCanSend status then 1 else 0)
      (panicStep v.buffer v.count p status) := by
  have hsent := h.sent
  have hs := h.s_le
  have hsz := h.sz_le
  have horder := h.order
  by_cases hlt : p.sz < v.count
  · have hs16 : p.s = 16 := by omega
    cases hready : uartCanSend status with
    | true =>
      simp only [panicStep, hlt, hready, if_true]
      refine ⟨hs, ?_, fun hlt16 => by simp only at hlt16; omega, hlt, ?_, ?_,
        head?_append (head?_append h.cli)⟩
      · simp only
        omega
      · simp only [ios_io, written_append, h.written, hs16]
        simp [written_inb, written_outb, List.range_succ]
      · simp only [ios_io]
        exact h.polled.send hready _
    | false =>
      simp only [panicStep, hlt, hready, if_true, Bool.false_eq_true, if_false]
      refine ⟨hs, hsent, horder, hsz, ?_, ?_, head?_append h.cli⟩
      · simp only [ios_io, written_append, h.written]
        exact List.append_nil _
      · simp only [ios_io]
        exact h.polled.read status
  · by_cases hzero : p.s = 0
    · simp only [panicStep, hlt, hzero, ne_eq, not_true_eq_false, if_false]
      refine ⟨Nat.zero_le 16, ?_, fun _ => by simp only; omega, hsz, ?_, ?_, head?_append h.cli⟩
      · simp only
        split <;> omega
      · simp only [ios_halt, h.written, hzero]
      · simp only [ios_halt]
        exact h.polled
    · cases hready : uartCanSend status with
      | true =>
        simp only [panicStep, hlt, hzero, hready, ne_eq, not_false_eq_true, if_true, if_false]
        refine ⟨?_, ?_, fun _ => by simp only; omega, hsz, ?_, ?_,
          head?_append (head?_append h.cli)⟩
        · simp only
          omega
        · simp only
          omega
        · have hleft : 16 - (p.s - 1) = 16 - p.s + 1 := by omega
          simp only [ios_io, written_append, h.written, hleft, List.replicate_succ']
          simp [written_inb, written_outb]
        · simp only [ios_io]
          exact h.polled.send hready 0
      | false =>
        simp only [panicStep, hlt, hzero, hready, ne_eq, not_false_eq_true, if_true, if_false,
          Bool.false_eq_true]
        refine ⟨hs, hsent, horder, hsz, ?_, ?_, head?_append h.cli⟩
        · simp only [ios_io, written_append, h.written]
          exact List.append_nil _
        · simp only [ios_io]
          exact h.polled.read status

end SecOS
