-- SUMMARY: An image as the linker script lays one out, and a machine that has just been started.
import SecOS.Exam.Boot

/-!
# A sample image

The stubs stand 16 bytes apart behind the boot stack, the rest of the assembly in
slots of 256 bytes after them. `sampleBoot` is the machine at the entry of `start`, and
`sample` the one that the configuration makes of it.
-/

namespace SecOS

open X86

def sampleBase : Block → Nat
  | .stub v => 0x302010 + 16 * v
  | .idtText => 0x304000
  | .clockInterruptIsr => 0x304100
  | .syscallIsr => 0x304200
  | .firstLaunch => 0x304300
  | .idle => 0x304400

def sampleAddr (pc : Pc) : Word := BitVec.ofNat 32 (sampleBase pc.block + 4 * pc.idx)

def samplePcAt (a : Word) : Option Pc :=
  let n := a.toNat
  if n < 0x302010 then none
  else if h : (n - 0x302010) / 16 < 256 then
    some ⟨.stub ⟨(n - 0x302010) / 16, h⟩, (n - 0x302010) % 16 / 4⟩
  else match n / 0x100 with
    | 0x3040 => some ⟨.idtText, n % 0x100 / 4⟩
    | 0x3041 => some ⟨.clockInterruptIsr, n % 0x100 / 4⟩
    | 0x3042 => some ⟨.syscallIsr, n % 0x100 / 4⟩
    | 0x3043 => some ⟨.firstLaunch, n % 0x100 / 4⟩
    | 0x3044 => some ⟨.idle, n % 0x100 / 4⟩
    | _ => none

theorem length_stubOf_le (v : Nat) : (stubOf v).length ≤ 3 := by
  rw [stubOf]
  split
  · simp
  · split <;> simp [stubCode, stubPlain]

/-- The address of an instruction leads back to it. -/
theorem samplePcAt_sampleAddr (pc : Pc) (h : pc.Valid) : samplePcAt (sampleAddr pc) = some pc := by
  obtain ⟨b, n⟩ := pc
  cases b with
  | stub v =>
    have hn : n < 3 := by
      rw [Pc.Valid, Machine.text_stub] at h
      exact h.trans_le (length_stubOf_le v)
    have hv := v.isLt
    have hnat : (sampleAddr ⟨.stub v, n⟩).toNat = 0x302010 + 16 * v + 4 * n := by
      simp only [sampleAddr, sampleBase, BitVec.toNat_ofNat]
      omega
    have hdiv : (0x302010 + 16 * v.val + 4 * n - 0x302010) / 16 = v := by omega
    have hmod : (0x302010 + 16 * v.val + 4 * n - 0x302010) % 16 / 4 = n := by omega
    simp only [samplePcAt, hnat, hdiv, hmod, hv, dif_pos, Fin.eta]
    exact if_neg (by omega)
  | idtText =>
    have hn : n < 14 := h
    interval_cases n <;> decide +kernel
  | clockInterruptIsr =>
    have hn : n < 10 := h
    interval_cases n <;> decide +kernel
  | syscallIsr =>
    have hn : n < 10 := h
    interval_cases n <;> decide +kernel
  | firstLaunch =>
    have hn : n < 11 := h
    interval_cases n <;> decide +kernel
  | idle =>
    have hn : n < 1 := h
    interval_cases n
    decide +kernel

def sampleImage : Image where
  addr := sampleAddr
  pcAt := samplePcAt
  pcAt_addr := samplePcAt_sampleAddr
  idtTrampoline := 0x302010
  aligned := rfl
  stubSize _ := 9
  stubSize_bound _ := by omega
  addr_stub v := by
    rw [stubStart_eq rfl (fun _ => by omega)]
    rfl
  tss := 0x306000
  task1Function := 0x404000
  task2Function := 0x80400d
  frameSize := 96
  frameSize_pos := by omega
  cDepth := 512
  frameSize_le := by omega
  cDepth_le := by omega

namespace Machine

/-- The machine at the entry of `start`: memory is zero, the multiboot loader's
registers are of no consequence. -/
def sampleBoot : Machine where
  cpu :=
    { eax := 0, ecx := 0, edx := 0, ebx := 0, esp := 0x302000, ebp := 0, esi := 0, edi := 0
      eip := 0x303023, eflags := 2, cs := 8, ss := 16, ds := 16, es := 16, fs := 16, gs := 16
      cr0 := 0x11, cr2 := 0, cr3 := 0, cr4 := 0, shadow := false }
  mem := fun _ => 0
  pics := picsReady
  gdt := []
  idt := []
  tss := Tss.zero
  currentTaskIdx := -1
  tasks := fun _ => ⟨0, 0, 0, 0, IntCtx.zero, 0⟩
  console := []
  ports := []

theorem entered_sampleBoot : Entered sampleBoot where
  eflags := rfl
  esp_lo := by decide
  esp_hi := by decide
  currentTaskIdx := rfl
  tss := rfl

/-- The sample machine in the loop of `config`. -/
def sample : Machine := sampleBoot.configured sampleImage

theorem booted_sample : Booted sampleImage sample :=
  ⟨_, entered_sampleBoot, start_eq entered_sampleBoot⟩

/-- What the C handlers leave behind in the sample runs: nothing. -/
def sampleScratch : Scratch where
  eax := 0
  ecx := 0
  edx := 0
  ebx := 0
  ebp := 0
  esi := 0
  edi := 0
  flags := 0
  stack := fun _ => 0

/-- The sample machine after the first clock interrupt: task 0 is about to start. -/
def sampleTask : Machine :=
  (sample.withPics (servicing picsReady 0)).clockDone sampleImage sampleScratch none

theorem step_sampleTask : step sampleImage sample (.irq 0 sampleScratch) = some sampleTask :=
  (step_irq_zero booted_sample.inv).trans (if_pos ⟨rfl, rfl⟩)

theorem run_sampleTask :
    Lts.run (step sampleImage) sample [.irq 0 sampleScratch] = some sampleTask :=
  Lts.run_cons.mpr ⟨sampleTask, step_sampleTask, Lts.run_nil.mpr rfl⟩

theorem inv_sampleTask : Inv sampleImage sampleTask (some 0) :=
  booted_sample.inv_run (by simp [SparesPics]) run_sampleTask

end Machine

end SecOS
