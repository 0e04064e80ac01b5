-- SUMMARY: Page numbers, page table flags, the entry macro and the page primitives of the kernel.
import SecOS.X86.Bitfield
import SecOS.X86.Paging
import SecOS.Kernel.String

/-!
# Page tables

The flags, the page number macros and `pg_set_entry` of `pagemem.h`, and the two
macros that clear and copy a page.
-/

namespace SecOS

open X86

def pgP : Word := 1
def pgRw : Word := 2
def pgKrn : Word := 0
def pgUsr : Word := 4

def pageSize : Word := 0x1000

/-- `page_get_nr` -/
def pageGetNr (addr : Word) : Word := addr >>> 12

/-- `pg_set_entry`: the flags first, then the page number over them. -/
def pgSetEntry (m : Mem) (e attr pfn : Word) : Mem :=
  let m := m.write32 e (attr ||| pgP)
  m.write32 e (setField (m.read32 e) 12 (field pfn 0 20))

/-- The word an entry ends up with. -/
def pgEntry (attr pfn : Word) : PageEntry := setField (attr ||| pgP) 12 (field pfn 0 20)

@[simp] theorem pgSetEntry_eq (m : Mem) (e attr pfn : Word) :
    pgSetEntry m e attr pfn = m.write32 e (pgEntry attr pfn) := by
  simp [pgSetEntry, pgEntry]

section Decode

variable (attr pfn : Word)

@[simp] theorem present_pgEntry : (pgEntry attr pfn).present = true := by
  simp only [PageEntry.present, pgEntry]
  rw [getLsbD_setField_disjoint _ _ (by omega) (by omega)]
  simp [pgP]

theorem rw_pgEntry : (pgEntry attr pfn).rw = attr.getLsbD 1 := by
  simp only [PageEntry.rw, pgEntry]
  rw [getLsbD_setField_disjoint _ _ (by omega) (by omega)]
  simp [pgP]

theorem user_pgEntry : (pgEntry attr pfn).user = attr.getLsbD 2 := by
  simp only [PageEntry.user, pgEntry]
  rw [getLsbD_setField_disjoint _ _ (by omega) (by omega)]
  simp [pgP]

@[simp] theorem frame_pgEntry : (pgEntry attr pfn).frame = pfn.toNat % 2 ^ 20 := by
  have h := congrArg BitVec.toNat
    (field_setField (attr ||| pgP) 12 (field pfn 0 20) (by omega))
  rw [toNat_field, toNat_field] at h
  have hlt := (pgEntry attr pfn).isLt
  simp only [PageEntry.frame, pgEntry] at *
  omega

/-- The walk through two entries that `pg_set_entry` wrote. -/
theorem walk_pgEntry {m : Mem} {dir va attr pfn attr' pfn' : Word}
    (hpde : m.read32 (entryAddr dir (pdIndex va)) = pgEntry attr pfn)
    (hpte : m.read32 (entryAddr (BitVec.ofNat 32 (pfn.toNat % 2 ^ 20 * 2 ^ 12)) (ptIndex va))
      = pgEntry attr' pfn') :
    walk m dir va = some
      { pa := BitVec.ofNat 32 (pfn'.toNat % 2 ^ 20 * 2 ^ 12 + pageOffset va)
        user := attr.getLsbD 2 && attr'.getLsbD 2
        rw := attr.getLsbD 1 && attr'.getLsbD 1 } := by
  simp only [walk, hpde, present_pgEntry, frame_pgEntry, hpte, Bool.not_true, Bool.false_eq_true,
    if_false, user_pgEntry, rw_pgEntry]

/-- The walk stops at an empty entry of a table. -/
theorem walk_pgEntry_zero {m : Mem} {dir va attr pfn : Word}
    (hpde : m.read32 (entryAddr dir (pdIndex va)) = pgEntry attr pfn)
    (hpte : m.read32 (entryAddr (BitVec.ofNat 32 (pfn.toNat % 2 ^ 20 * 2 ^ 12)) (ptIndex va))
      = 0) : walk m dir va = none := by
  have hzero : PageEntry.present 0 = false := rfl
  simp only [walk, hpde, present_pgEntry, frame_pgEntry, hpte, hzero, Bool.not_true,
    Bool.false_eq_true, if_false, Bool.not_false, if_true]

end Decode

/-! ## Page primitives -/

/-- `__clear_page` hands `_memset32`, which counts words, a number of bytes. -/
def clearPage (m : Mem) (flags d : Word) : Mem × Word := memset32 m flags d 0 pageSize

/-- `__copy_page`, with the same count. -/
def copyPage (m : Mem) (flags d s : Word) : Mem × Word := memcpy32 m flags d s pageSize

def pageIsAligned (addr : Word) : Prop := addr &&& (pageSize - 1) = 0

instance (addr : Word) : Decidable (pageIsAligned addr) :=
  inferInstanceAs (Decidable (_ = _))

/-- The memory with the page at `s` copied to `d` and nothing else changed. -/
def pageCopied (m : Mem) (d s : Word) : Mem :=
  m.blit d pageSize.toNat fun i => m (s + BitVec.ofNat 32 i)

section Primitives

theorem toNat_of_pageIsAligned {addr : Word} (h : pageIsAligned addr) : addr.toNat % 4096 = 0 := by
  have hbits := congrArg BitVec.toNat h
  rwa [BitVec.toNat_and, show (pageSize - 1).toNat = 2 ^ 12 - 1 from rfl,
    Nat.and_two_pow_sub_one_eq_mod] at hbits

theorem pageIsAligned.no_wrap {addr : Word} (h : pageIsAligned addr) :
    addr.toNat + 4096 ≤ 2 ^ 32 := by
  have halign := toNat_of_pageIsAligned h
  have hlt := addr.isLt
  omega

/-- Two pages that are not the same do not meet. -/
theorem ahead_of_page {d s : Word} (hd : pageIsAligned d) (hs : pageIsAligned s) (hne : d ≠ s) :
    Ahead d s 4096 := by
  have hd' := toNat_of_pageIsAligned hd
  have hs' := toNat_of_pageIsAligned hs
  have hval : d.toNat ≠ s.toNat := mt BitVec.eq_of_toNat_eq hne
  apply ahead_of_le hd.no_wrap hs.no_wrap
  omega

/-- Past a page, its update is not seen in the three pages after it. -/
theorem blit_page_after (m : Mem) (d : Word) (f : Nat → Byte) {i : Nat} (hi : i < 3 * 4096) :
    m.blit d 4096 f (d + 4096 + BitVec.ofNat 32 i) = m (d + BitVec.ofNat 32 (4096 + i)) := by
  have haddr : d + 4096 + BitVec.ofNat 32 i = d + BitVec.ofNat 32 (4096 + i) := by bv_omega
  rw [haddr]
  apply Mem.blit_not_within
  simp only [Within]
  bv_omega

/-- The page itself is cleared, then the three pages after it. -/
theorem clearPage_eq (m : Mem) (flags d : Word) :
    clearPage m flags d
      = ((m.blit d 4096 fun _ => 0).blit (d + 4096) (3 * 4096) fun _ => 0, flags) := by
  have hsplit : (m.blit d 4096 fun _ => 0).blit (d + 4096) (3 * 4096) (fun _ => 0)
      = m.blit d (4096 + 3 * 4096) fun _ => 0 :=
    Mem.blit_blit m d (k := 4096) (n := 3 * 4096) (fun _ => 0) (by omega)
  unfold clearPage memset32
  rw [fixStrDir_eq, hsplit]
  exact congrArg (·, flags) (repStosl_eq m d 0 pageSize.toNat (by decide))

/-- The page itself is copied, then the three pages after it. -/
theorem copyPage_eq (m : Mem) (flags : Word) {d s : Word} (hd : pageIsAligned d)
    (hs : pageIsAligned s) (hne : d ≠ s) :
    copyPage m flags d s
      = (repMovsl false (pageCopied m d s) (d + 4096) (s + 4096) (3 * 1024), flags) := by
  have hpage : repMovsl false m d s 1024 = pageCopied m d s :=
    repMovsl_eq m (by omega) (ahead_of_page hd hs hne)
  unfold copyPage memcpy32
  rw [fixStrDir_eq, ← hpage]
  exact congrArg (·, flags) (repMovsl_add m d s 1024 (3 * 1024))

theorem filled_clearPage_iff (m : Mem) (flags : Word) {d : Word} (hd : pageIsAligned d) :
    Filled m (clearPage m flags d).1 d 0 4096 ↔
      ∀ i < 3 * 4096, m (d + BitVec.ofNat 32 (4096 + i)) = 0 := by
  have hself : (m.blit d 4096 fun _ => 0).blit (d + 4096) (3 * 4096) (fun _ => 0)
        = (m.blit d 4096 fun _ => 0) ↔
      ∀ i < 3 * 4096, m.blit d 4096 (fun _ => 0) (d + 4096 + BitVec.ofNat 32 i) = 0 :=
    Mem.blit_eq_self_iff (by omega)
  rw [filled_iff_eq_blit hd.no_wrap, clearPage_eq, hself]
  constructor
  · intro h i hi
    rw [← blit_page_after m d (fun _ => 0) hi]
    exact h i hi
  · intro h i hi
    rw [blit_page_after m d _ hi]
    exact h i hi

theorem moved_copyPage_iff (m : Mem) (flags : Word) {d s : Word} (hd : pageIsAligned d)
    (hs : pageIsAligned s) (hne : d ≠ s) :
    Moved m (copyPage m flags d s).1 d s 4096 ↔
      ∀ i < 3 * 4096, m (d + BitVec.ofNat 32 (4096 + i))
        = pageCopied m d s (s + BitVec.ofNat 32 (4096 + i)) := by
  have haddr (i : Nat) : s + 4096 + BitVec.ofNat 32 i = s + BitVec.ofNat 32 (4096 + i) := by
    bv_omega
  have hself : repMovsl false (pageCopied m d s) (d + 4096) (s + 4096) (3 * 1024)
        = pageCopied m d s ↔
      ∀ i < 4 * (3 * 1024), pageCopied m d s (d + 4096 + BitVec.ofNat 32 i)
        = pageCopied m d s (s + 4096 + BitVec.ofNat 32 i) :=
    repMovsl_eq_self_iff (by omega)
  have hmoved : Moved m (copyPage m flags d s).1 d s 4096 ↔
      (copyPage m flags d s).1 = pageCopied m d s := moved_iff_eq_blit hd.no_wrap
  rw [hmoved, copyPage_eq m flags hd hs hne, hself]
  constructor
  · intro h i hi
    rw [← haddr, ← h i hi]
    exact (blit_page_after m d _ hi).symm
  · intro h i hi
    rw [haddr, ← h i hi]
    exact blit_page_after m d _ hi

/-- Both primitives go three pages too far: they are right only where clearing or
copying these pages changes nothing. -/
theorem page_primitives_iff (m : Mem) (flags d s : Word) (hd : pageIsAligned d)
    (hs : pageIsAligned s) (hne : d ≠ s) :
    (Filled m (clearPage m flags d).1 d 0 4096 ↔
      ∀ i < 3 * 4096, m (d + BitVec.ofNat 32 (4096 + i)) = 0) ∧
    (Moved m (copyPage m flags d s).1 d s 4096 ↔
      ∀ i < 3 * 4096, m (d + BitVec.ofNat 32 (4096 + i))
        = pageCopied m d s (s + BitVec.ofNat 32 (4096 + i))) :=
  ⟨filled_clearPage_iff m flags hd, moved_copyPage_iff m flags hd hs hne⟩

/-- A memory of ones: the directory at `0x350000` and the page table after it. -/
theorem page_primitives_sample :
    (Filled (fun _ => 1) (clearPage (fun _ => 1) 2 0x350000).1 0x350000 0 4096 ↔
      ∀ i < 3 * 4096, (1 : Byte) = 0) ∧
    (Moved (fun _ => 1) (copyPage (fun _ => 1) 2 0x350000 0x351000).1 0x350000 0x351000 4096 ↔
      ∀ i < 3 * 4096, 1
        = pageCopied (fun _ => 1) 0x350000 0x351000 (0x351000 + BitVec.ofNat 32 (4096 + i))) :=
  page_primitives_iff (fun _ => 1) 2 0x350000 0x351000 (by decide) (by decide) (by decide)

/-- Clearing the directory at `0x350000` wipes the page table after it. -/
theorem not_filled_clearPage :
    ¬ Filled (fun _ => 1) (clearPage (fun _ => 1) 2 0x350000).1 0x350000 0 4096 := by
  rw [filled_clearPage_iff _ _ (by decide)]
  intro h
  exact absurd (h 0 (by omega)) (by decide)

end Primitives

end SecOS
