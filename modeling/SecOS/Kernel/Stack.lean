-- SUMMARY: The stack walk of the fatal path of `excp_hdlr`, and when it comes to its end.
import SecOS.Base.Chain
import SecOS.Kernel.Intr
import Mathlib.Data.Fintype.Card

/-!
# Stack walk

`stack_trace` follows the saved frame pointers from the EBP of the interrupted context
on, which the interrupted code is free to choose, while they are not null and lie below
`__kernel_start__`. The memory it reads is taken as it is when the walk begins: where the
handler's stack lies higher, as the kernel stacks of the exam's tasks do, nothing below
changes under the walk.
-/

namespace SecOS

open X86

/-! ## The code -/

/-- The condition of the loop. -/
def frameInBounds (kernelStart ebp : Word) : Bool := ebp ≠ 0 && ebp < kernelStart

/-- The loop of `stack_trace`, `fuel` tests of its condition long: what it prints, or
nothing when it has not ended by then. -/
def stackTraceLoop (kernelStart : Word) (m : Mem) (ebp : Word) : Nat → Option (List Line)
  | 0 => none
  | fuel + 1 =>
    if frameInBounds kernelStart ebp then
      let eip := m.read32 (ebp + 4)
      let ebp := m.read32 ebp
      (stackTraceLoop kernelStart m ebp fuel).map fun out => ⟨"%p\n", [.word eip]⟩ :: out
    else some []

def stackTrace (kernelStart : Word) (m : Mem) (start : Word) (fuel : Nat) : Option (List Line) :=
  (stackTraceLoop kernelStart m start fuel).map fun out => ⟨"\n-= Stack Trace =-\n", []⟩ :: out

/-- `excp_hdlr` with the walk and the call of `panic` at its end. -/
def excpHdlrWalk (kernelStart : Word) (m : Mem) (cpu : Cpu) (ctx : IntCtx) (fuel : Nat) :
    Option Outcome :=
  match excpHdlr cpu ctx with
  | .ret out => some (.ret out)
  | .fatal out =>
    (stackTrace kernelStart m ctx.gpr.ebp fuel).map fun trace =>
      .fatal (out ++ trace ++ [⟨"fatal exception !\n", []⟩])

/-! ## Frames -/

/-- The frame the walk goes to from a frame in bounds. -/
def savedEbp (kernelStart : Word) (m : Mem) (ebp : Word) : Option Word :=
  if frameInBounds kernelStart ebp then some (m.read32 ebp) else none

/-- The walk ends, and every exception but the non-maskable interrupt reaches `panic`. -/
structure Fatal (kernelStart : Word) (m : Mem) (cpu : Cpu) (ctx : IntCtx) : Prop where
  trace : ∃ fuel out, stackTrace kernelStart m ctx.gpr.ebp fuel = some out
  panic : blow ctx.nr ≠ nmiExcp →
    ∃ fuel out, excpHdlrWalk kernelStart m cpu ctx fuel = some (.fatal out)

section Frames

instance finiteWord : Finite Word := Finite.of_injective BitVec.toFin BitVec.toFin_injective

variable {kernelStart : Word} {m : Mem}

/-- The loop ends when the chain of saved frame pointers does. -/
theorem isSome_stackTraceLoop (ebp : Word) (fuel : Nat) :
    (stackTraceLoop kernelStart m ebp fuel).isSome
      ↔ Chain.walk (savedEbp kernelStart m) fuel ebp = none := by
  induction fuel generalizing ebp with
  | zero => simp [stackTraceLoop]
  | succ fuel ih =>
    rw [Chain.walk_succ]
    unfold stackTraceLoop savedEbp
    by_cases hin : frameInBounds kernelStart ebp
    · simp only [hin, if_true, Option.isSome_map, Option.bind_some]
      exact ih _
    · simp [hin]

theorem stackTrace_ends_iff (start : Word) :
    (∃ fuel out, stackTrace kernelStart m start fuel = some out)
      ↔ Chain.Halts (savedEbp kernelStart m) start := by
  have hfuel (fuel : Nat) : (∃ out, stackTrace kernelStart m start fuel = some out)
      ↔ Chain.walk (savedEbp kernelStart m) fuel start = none := by
    rw [← isSome_stackTraceLoop, ← Option.isSome_iff_exists, stackTrace, Option.isSome_map]
  exact exists_congr hfuel

/-- `panic` is called right after the walk. -/
theorem panics_of_trace {cpu : Cpu} {ctx : IntCtx} (hvector : blow ctx.nr ≠ nmiExcp)
    (h : ∃ fuel out, stackTrace kernelStart m ctx.gpr.ebp fuel = some out) :
    ∃ fuel out, excpHdlrWalk kernelStart m cpu ctx fuel = some (.fatal out) := by
  obtain ⟨fuel, trace, htrace⟩ := h
  obtain ⟨out, hout⟩ : ∃ out, excpHdlr cpu ctx = .fatal out := by
    unfold excpHdlr
    simp only [hvector, if_false]
    exact ⟨_, rfl⟩
  refine ⟨fuel, out ++ trace ++ [⟨"fatal exception !\n", []⟩], ?_⟩
  unfold excpHdlrWalk
  simp only [hout, htrace, Option.map_some]

/-- Frame pointers that go up, as a stack that grows down leaves them, end the walk. -/
theorem stackTrace_ends_of_lt
    (hup : ∀ ebp, frameInBounds kernelStart ebp → ebp.toNat < (m.read32 ebp).toNat)
    (start : Word) : ∃ fuel out, stackTrace kernelStart m start fuel = some out := by
  rw [stackTrace_ends_iff]
  refine Chain.halts_of_lt BitVec.toNat ?_ start
  intro ebp ebp' hnext
  unfold savedEbp at hnext
  split at hnext
  · obtain rfl := Option.some.inj hnext
    exact hup ebp ‹_›
  · exact absurd hnext (Option.some_ne_none _).symm

end Frames

/-- The fatal path reaches `panic` exactly when no frame of the chain of the interrupted
context leads back to itself. -/
theorem fatal_iff (kernelStart : Word) (m : Mem) (cpu : Cpu) (ctx : IntCtx) :
    Fatal kernelStart m cpu ctx ↔
      ∀ ebp, Chain.Reaches (savedEbp kernelStart m) ctx.gpr.ebp ebp →
        ¬ Chain.OnCycle (savedEbp kernelStart m) ebp := by
  rw [← Chain.halts_iff, ← stackTrace_ends_iff]
  constructor
  · exact fun h => h.trace
  · exact fun h => ⟨h, fun hvector => panics_of_trace hvector h⟩

/-- The word at `0x200000` holds its own address. -/
def selfFrame : Mem := Mem.write32 (fun _ => 0) 0x200000 0x200000

/-- A general protection fault with this address in EBP. -/
def selfFrameCtx : IntCtx :=
  { IntCtx.zero with gpr := { IntCtx.zero.gpr with ebp := 0x200000 }, nr := 13 }

/-- A task that faults with such an address in EBP keeps the kernel in the walk. -/
theorem not_fatal_selfFrame : ¬ Fatal 0x302000 selfFrame default selfFrameCtx := by
  rw [fatal_iff]
  intro h
  apply h 0x200000 ⟨0, rfl⟩
  exact ⟨0, rfl⟩

end SecOS
