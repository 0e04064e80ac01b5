-- SUMMARY: A call of debug in the memory of its caller: its argument on the stack, the buffer, and what goes over the line.
import SecOS.Kernel.Console

/-!
# Calls of debug

Compiled code pushes the argument, calls, and waits until the last byte is sent. Below its
stack pointer and in the buffer memory is the callee's.
-/

namespace SecOS

open X86

/-- Where code calls `debug`, as far as the compiler and the linker settle it. -/
structure CallSite where
  /-- `vprint_buffer` -/
  vprintBuffer : Word
  /-- Bytes below the stack pointer of the caller that may be overwritten. -/
  cDepth : Nat
  /-- How far below that stack pointer the argument is pushed. -/
  debugArg : Nat
  debugArg_ge : 4 ≤ debugArg
  debugArg_le : debugArg ≤ cDepth
  cDepth_le : cDepth ≤ 0x800

/-- What a call of `debug` meets: what is on the stack below its caller, and the line status
register, which it reads `rounds` times. -/
structure Wait where
  stack : Nat → Byte
  lsr : Nat → Byte
  rounds : Nat

/-- Memory when the callee begins to format. -/
def debugMem (site : CallSite) (esp arg : Word) (w : Wait) (m : Mem) : Mem :=
  (m.blit (esp - BitVec.ofNat 32 site.cDepth) site.cDepth w.stack).write32
    (esp - BitVec.ofNat 32 site.debugArg) arg

/-- What is in the buffer before. -/
def bufferOf (site : CallSite) (m : Mem) (k : Nat) : Byte :=
  m (site.vprintBuffer + BitVec.ofNat 32 k)

/-- A call of `debug` with one argument behind the format. It has not come back while bytes
are left to send. -/
def debug (site : CallSite) (format : String) (arg esp : Word) (w : Wait) (m : Mem) :
    Option (Mem × List IoEvent) :=
  let m := debugMem site esp arg w m
  let params := esp - BitVec.ofNat 32 site.debugArg
  match printf m (bufferOf site m) (format.toList.map chr) params with
  | .error _ => none
  | .ok v =>
    let tx := v.uart w.lsr w.rounds
    if v.count ≤ tx.sz then some (m.blit site.vprintBuffer sizeofVprintBuffer v.buffer, tx.trace)
    else none

variable {site : CallSite} {format : String} {arg esp b : Word} {w : Wait} {ds : List Directive}
variable {m m' : Mem} {out : List IoEvent}

/-- The device is ready for as many bytes as the buffer holds. -/
def Wait.Ready (w : Wait) : Prop :=
  1023 ≤ (List.range w.rounds).countP fun k => uartCanSend (w.lsr k)

/-- Where the code below `esp` may write. -/
def Untouched (site : CallSite) (esp b : Word) : Prop :=
  ¬ Within (esp - BitVec.ofNat 32 site.cDepth) site.cDepth b ∧
    ¬ Within site.vprintBuffer sizeofVprintBuffer b

theorem debugMem_not_within (h : ¬ Within (esp - BitVec.ofNat 32 site.cDepth) site.cDepth b) :
    debugMem site esp arg w m b = m b := by
  have hge := site.debugArg_ge
  have hle := site.debugArg_le
  have hdepth := site.cDepth_le
  unfold debugMem
  rw [Mem.write32_not_within (by simp only [Within] at *; bv_omega), Mem.blit_not_within h]

theorem read32_debugMem (site : CallSite) (esp arg : Word) (w : Wait) (m : Mem) :
    (debugMem site esp arg w m).read32 (esp - BitVec.ofNat 32 site.debugArg) = arg :=
  Mem.read32_write32 ..

theorem debug_eq {v : Vprintf} (hv : printf (debugMem site esp arg w m)
      (bufferOf site (debugMem site esp arg w m)) (format.toList.map chr)
      (esp - BitVec.ofNat 32 site.debugArg) = .ok v) :
    debug site format arg esp w m = if v.count ≤ (v.uart w.lsr w.rounds).sz then
      some ((debugMem site esp arg w m).blit site.vprintBuffer sizeofVprintBuffer v.buffer,
        (v.uart w.lsr w.rounds).trace) else none := by
  simp only [debug, hv]

/-- What a call that has come back has printed, and where it has written. -/
theorem debug_of_eq_some (hsplit : splitFormat (format.toList.map chr) = some (ds, none))
    (h : debug site format arg esp w m = some (m', out)) :
    written (serialTx serialCom1) out = (renderAll (debugMem site esp arg w m)
        (esp - BitVec.ofNat 32 site.debugArg) ds).take 1023 ∧
      Polled serialCom1 out ∧ ∀ b, Untouched site esp b → m' b = m b := by
  obtain ⟨v, hv, -, -, -, hpolled, hdone, -⟩ := printf_sends (debugMem site esp arg w m)
    (esp - BitVec.ofNat 32 site.debugArg) (bufferOf site (debugMem site esp arg w m)) w.lsr hsplit
  rw [debug_eq hv] at h
  split at h
  · next hcount =>
    obtain ⟨rfl, rfl⟩ := Prod.ext_iff.mp (Option.some.inj h)
    refine ⟨hdone _ hcount, hpolled _, fun b hb => ?_⟩
    exact (Mem.blit_not_within hb.2).trans (debugMem_not_within hb.1)
  · cases h

/-- A device that is always ready. -/
def sampleWait : Wait := ⟨fun _ => 0, fun _ => 0x60, 1023⟩

end SecOS
