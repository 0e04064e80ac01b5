-- SUMMARY: The entry macro and memset as they run with paging on, and when they leave the memory that they leave without it.
import SecOS.X86.Linear
import SecOS.Kernel.Pagemem

/-!
# Stores through the translation

`pg_set_entry` and `memset` once more, with every load and every store made through the
translation in force.
-/

namespace SecOS

open X86

/-! ## The code -/

/-- `pg_set_entry` -/
def pgSetEntryLinear (s : Linear) (e attr pfn : Word) : Option Linear := do
  let s ← s.store32 e (attr ||| pgP)
  let raw ← s.load32 e
  s.store32 e (setField raw 12 (field pfn 0 20))

/-- `rep stosl` with ECX = `cnt`. -/
def repStoslLinear (df : Bool) (s : Linear) (edi eax : Word) : Nat → Option Linear
  | 0 => some s
  | cnt + 1 => do
    let s ← s.store32 edi eax
    repStoslLinear df s (strStep df edi 4) eax cnt

def repStosbLinear (df : Bool) (s : Linear) (edi : Word) (al : Byte) : Nat → Option Linear
  | 0 => some s
  | cnt + 1 => do
    let s ← s.store8 edi al
    repStosbLinear df s (strStep df edi 1) al cnt

/-- `memset`; the flags come back as they were. -/
def memsetLinear (s : Linear) (flags dst : Word) (c : Byte) (size : Word) : Option Linear :=
  if size = 0 then some s else
  let (cnt, rm) := divrm size sizeofLong
  let dloc := dst + cnt * sizeofLong
  do
    let s ← if cnt ≠ 0 then
        (fixStrDir (fun df => repStoslLinear df s dst (replicateByteOnLong c) cnt.toNat) flags).1
      else some s
    if rm ≠ 0 then (fixStrDir (fun df => repStosbLinear df s dloc c rm.toNat) flags).1 else some s

/-! ## Where addresses stand for themselves -/

section Reaches

variable {r : PagingRegs} {I : Mem → Prop} {A : Word → Prop} {s : Linear}
variable {e edi dst : Word} {cnt : Nat}

theorem reaches_pgSetEntryLinear (h : Linear.Stable r I A) (hr : s.regs = r) (hI : I s.mem)
    (halign : e.toNat % 4 = 0) (hA : ∀ b, Within e 4 b → A b) (attr pfn : Word) :
    Linear.Reaches (fun m => I m ∧ m = pgSetEntry s.mem e attr pfn) s
      (pgSetEntryLinear s e attr pfn) := by
  have hpage := Linear.pageOffset_of_aligned halign
  have he : A e := hA e (by simp [Within])
  unfold pgSetEntryLinear
  refine (h.store hr hI (by decide) hpage hA).bind fun s₁ hregs hs₁ => ?_
  obtain ⟨hI₁, hmem⟩ := hs₁
  rw [hr] at hregs
  have htranslate := h.translate s₁.mem e hI₁ he
  rw [← hregs] at htranslate
  rw [Linear.load32_of_translate hpage htranslate]
  have hstore := h.store (f := Mem.byteOf (setField (s₁.mem.read32 e) 12 (field pfn 0 20))) hregs
    hI₁ (by decide) hpage hA
  unfold pgSetEntry
  rw [hmem] at hstore ⊢
  exact hstore

theorem within_add_four {b : Word} (hb : Within (edi + 4) (4 * cnt) b) :
    Within edi (4 * (cnt + 1)) b := by
  simp only [Within] at *
  bv_omega

theorem reaches_repStoslLinear (cnt : Nat) (eax : Word) (h : Linear.Stable r I A)
    (hr : s.regs = r) (hI : I s.mem)
    (halign : edi.toNat % 4 = 0) (hcnt : 4 * cnt ≤ 2 ^ 32)
    (hA : ∀ b, Within edi (4 * cnt) b → A b) :
    Linear.Reaches (fun m => I m ∧ m = repStosl false s.mem edi eax cnt) s
      (repStoslLinear false s edi eax cnt) := by
  induction cnt generalizing s edi with
  | zero => exact Linear.Reaches.refl ⟨hI, rfl⟩
  | succ cnt ih =>
    have hword : ∀ b, Within edi 4 b → A b := fun b hb =>
      hA b (by simp only [Within] at *; omega)
    have hnext : (edi + 4).toNat % 4 = 0 := by bv_omega
    unfold repStoslLinear repStosl
    refine (h.store hr hI (by decide) (Linear.pageOffset_of_aligned halign) hword).bind
      fun s₁ hregs hs₁ => ?_
    obtain ⟨hI₁, hmem⟩ := hs₁
    rw [hr] at hregs
    have hrest := ih hregs hI₁ hnext (by omega) fun b hb => hA b (within_add_four hb)
    rw [hmem] at hrest
    exact hrest

/-- A whole number of words. -/
theorem reaches_memsetLinear (h : Linear.Stable r I A) (hr : s.regs = r) (hI : I s.mem)
    (flags : Word) (c : Byte) (size : Word) (halign : dst.toNat % 4 = 0)
    (hsize : size.toNat % 4 = 0) (hA : ∀ b, Within dst size.toNat b → A b) :
    Linear.Reaches (fun m => I m ∧ m = (memset s.mem flags dst c size).2.1) s
      (memsetLinear s flags dst c size) := by
  by_cases hzero : size = 0
  · unfold memset memsetLinear
    rw [if_pos hzero, if_pos hzero]
    exact Linear.Reaches.refl ⟨hI, rfl⟩
  have hrm : (divrm size sizeofLong).2 = 0 := by
    apply BitVec.eq_of_toNat_eq
    exact (BitVec.toNat_umod).trans hsize
  have hcnt : 4 * (divrm size sizeofLong).1.toNat = size.toNat := by
    have hsplit := divrm_split size
    rw [hrm] at hsplit
    exact hsplit
  have hne : (divrm size sizeofLong).1 ≠ 0 := by
    intro h0
    rw [h0] at hcnt
    exact hzero (BitVec.eq_of_toNat_eq hcnt.symm)
  have hwords := reaches_repStoslLinear (divrm size sizeofLong).1.toNat (replicateByteOnLong c) h
    hr hI halign (by rw [hcnt]; exact size.isLt.le) (by rw [hcnt]; exact hA)
  unfold memset memsetLinear
  rw [if_neg hzero, if_neg hzero]
  simp only [hrm, if_pos hne, memset32, fixStrDir_eq, ne_eq, not_true_eq_false, if_false]
  exact hwords.bind fun s₁ _ hs₁ => Linear.Reaches.refl hs₁

end Reaches

end SecOS
