-- SUMMARY: Two-level 32-bit paging with 4 KB pages: the table walk and the rights it combines.
import SecOS.X86.Memory

/-!
# Paging

The walk of a 32-bit linear address through a page directory and a page table,
without large pages. The accessed and dirty bits are ignored. The rights of a
page are those granted by both of its entries.
-/

namespace X86

/-- A page directory or page table entry. -/
abbrev PageEntry := BitVec 32

namespace PageEntry

def present (e : PageEntry) : Bool := e.getLsbD 0
def rw (e : PageEntry) : Bool := e.getLsbD 1
def user (e : PageEntry) : Bool := e.getLsbD 2
/-- Number of the physical page the entry points to. -/
def frame (e : PageEntry) : Nat := e.toNat / 2 ^ 12

end PageEntry

/-- Index of a linear address in the page directory. -/
def pdIndex (va : Word) : Nat := va.toNat / 2 ^ 22
/-- Index of a linear address in its page table. -/
def ptIndex (va : Word) : Nat := va.toNat / 2 ^ 12 % 2 ^ 10
def pageOffset (va : Word) : Nat := va.toNat % 2 ^ 12

/-- Address of entry `i` of the table at `t`. -/
def entryAddr (t : Word) (i : Nat) : Word := t + BitVec.ofNat 32 (4 * i)

structure Translation where
  pa : Word
  user : Bool
  rw : Bool
  deriving DecidableEq

/-- The walk from directory `dir`; `none` when an entry is not present. -/
def walk (m : Mem) (dir : Word) (va : Word) : Option Translation :=
  let pde : PageEntry := m.read32 (entryAddr dir (pdIndex va))
  if !pde.present then none else
  let pte : PageEntry := m.read32 (entryAddr (BitVec.ofNat 32 (pde.frame * 2 ^ 12)) (ptIndex va))
  if !pte.present then none else
  some { pa := BitVec.ofNat 32 (pte.frame * 2 ^ 12 + pageOffset va)
         user := pde.user && pte.user
         rw := pde.rw && pte.rw }

/-- Physical address of a linear address that ring 3 may access. -/
def userTranslate (m : Mem) (dir : Word) (va : Word) : Option Word :=
  match walk m dir va with
  | some t => if t.user then some t.pa else none
  | none => none

/-- A supervisor read of one byte; `none` is a page fault. -/
def readByte (m : Mem) (dir : Word) (va : Word) : Option Byte :=
  (walk m dir va).map fun t => m t.pa

/-- A supervisor read of the four bytes from `va` on, each through its own page. -/
def readLinear (m : Mem) (dir : Word) (va : Word) : Option Word := do
  let b0 ← readByte m dir va
  let b1 ← readByte m dir (va + 1)
  let b2 ← readByte m dir (va + 2)
  let b3 ← readByte m dir (va + 3)
  return b3 ++ b2 ++ b1 ++ b0

/-- A word is read when each of its bytes is. -/
theorem readLinear_eq_some {m : Mem} {dir va : Word} :
    (∃ w, readLinear m dir va = some w) ↔
      ∀ k < 4, ∃ b, readByte m dir (va + BitVec.ofNat 32 k) = some b := by
  constructor
  · rintro ⟨w, h⟩ k hk
    simp only [readLinear, Option.bind_eq_bind, Option.bind_eq_some_iff] at h
    obtain ⟨b0, h0, b1, h1, b2, h2, b3, h3, -⟩ := h
    have hcase : k = 0 ∨ k = 1 ∨ k = 2 ∨ k = 3 := by omega
    obtain rfl | rfl | rfl | rfl := hcase
    · exact ⟨b0, by rw [BitVec.add_zero, h0]⟩
    · exact ⟨b1, h1⟩
    · exact ⟨b2, h2⟩
    · exact ⟨b3, h3⟩
  · intro h
    obtain ⟨b0, h0⟩ := h 0 (by decide)
    obtain ⟨b1, h1⟩ := h 1 (by decide)
    obtain ⟨b2, h2⟩ := h 2 (by decide)
    obtain ⟨b3, h3⟩ := h 3 (by decide)
    rw [BitVec.add_zero] at h0
    have h1' : readByte m dir (va + 1) = some b1 := h1
    have h2' : readByte m dir (va + 2) = some b2 := h2
    have h3' : readByte m dir (va + 3) = some b3 := h3
    exact ⟨b3 ++ b2 ++ b1 ++ b0, by simp only [readLinear, h0, h1', h2', h3']; rfl⟩

/-- Four bytes that lie together in physical memory. -/
theorem readLinear_of_walk {m : Mem} {dir va p : Word}
    (h : ∀ k < 4, ∃ t, walk m dir (va + BitVec.ofNat 32 k) = some t ∧
      t.pa = p + BitVec.ofNat 32 k) :
    readLinear m dir va = some (m.read32 p) := by
  have hbyte : ∀ k < 4, readByte m dir (va + BitVec.ofNat 32 k)
      = some (m (p + BitVec.ofNat 32 k)) := by
    intro k hk
    obtain ⟨t, hwalk, hpa⟩ := h k hk
    rw [readByte, hwalk, Option.map_some, hpa]
  have h0 := hbyte 0 (by decide)
  have h1 : readByte m dir (va + 1) = some (m (p + 1)) := hbyte 1 (by decide)
  have h2 : readByte m dir (va + 2) = some (m (p + 2)) := hbyte 2 (by decide)
  have h3 : readByte m dir (va + 3) = some (m (p + 3)) := hbyte 3 (by decide)
  rw [BitVec.add_zero, BitVec.add_zero] at h0
  simp only [readLinear, h0, h1, h2, h3]
  rfl

theorem readLinear_congr {m m' : Mem} {dir va : Word}
    (h : ∀ k < 4, readByte m' dir (va + BitVec.ofNat 32 k)
      = readByte m dir (va + BitVec.ofNat 32 k)) :
    readLinear m' dir va = readLinear m dir va := by
  have h0 : readByte m' dir va = readByte m dir va := by simpa using h 0 (by decide)
  have h1 : readByte m' dir (va + 1) = readByte m dir (va + 1) := h 1 (by decide)
  have h2 : readByte m' dir (va + 2) = readByte m dir (va + 2) := h 2 (by decide)
  have h3 : readByte m' dir (va + 3) = readByte m dir (va + 3) := h 3 (by decide)
  simp only [readLinear, h0, h1, h2, h3]

/-- The bytes that are read are those of the word. -/
theorem readByte_of_readLinear {m : Mem} {dir va w : Word} (h : readLinear m dir va = some w)
    {k : Nat} (hk : k < 4) :
    readByte m dir (va + BitVec.ofNat 32 k) = some (Mem.byteOf w k) := by
  simp only [readLinear, Option.bind_eq_bind, Option.bind_eq_some_iff] at h
  obtain ⟨b0, h0, b1, h1, b2, h2, b3, h3, hw⟩ := h
  have hbyte := Mem.byteOf_of_append (f := fun
    | 0 => b0
    | 1 => b1
    | 2 => b2
    | _ => b3) hk
  rw [← Option.some.inj hw]
  refine Eq.trans ?_ (congrArg some hbyte.symm)
  have hcase : k = 0 ∨ k = 1 ∨ k = 2 ∨ k = 3 := by omega
  obtain rfl | rfl | rfl | rfl := hcase
  · rw [BitVec.add_zero]
    exact h0
  · exact h1
  · exact h2
  · exact h3

theorem walk_eq_none {m : Mem} {dir va : Word}
    (h : PageEntry.present (m.read32 (entryAddr dir (pdIndex va))) = false) :
    walk m dir va = none := by
  simp [walk, h]

theorem pdIndex_lt (va : Word) : pdIndex va < 1024 := by
  have := va.isLt; unfold pdIndex; omega

theorem ptIndex_lt (va : Word) : ptIndex va < 1024 := by
  unfold ptIndex; omega

/-- The two indices and the offset determine the address. -/
theorem toNat_eq_indices (va : Word) :
    va.toNat = pdIndex va * 2 ^ 22 + ptIndex va * 2 ^ 12 + pageOffset va := by
  unfold pdIndex ptIndex pageOffset; omega

end X86
