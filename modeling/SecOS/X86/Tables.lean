-- SUMMARY: Page tables that stand one after another: the addresses of their entries, and what stores leave in them.
import SecOS.X86.Paging

/-!
# Rows of page tables

Tables of 1024 entries, one a page, from an address `base` on. Entry `i` of table `k` is
a slot; different slots do not overlap.
-/

namespace X86

/-- Entry `i` of table `k`. -/
def slotAt (base : Word) (k i : Nat) : Word := entryAddr (base + BitVec.ofNat 32 (0x1000 * k)) i

variable {base : Word} {n k k' i i' : Nat} {m m' : Mem}

theorem toNat_slotAt (hbase : base.toNat + 0x1000 * n ≤ 2 ^ 32) (hk : k < n) (hi : i < 1024) :
    (slotAt base k i).toNat = base.toNat + 0x1000 * k + 4 * i := by
  unfold slotAt entryAddr
  bv_omega

/-- Writing one slot leaves every other one as it was. -/
theorem read32_slotAt_write32 (hbase : base.toNat + 0x1000 * n ≤ 2 ^ 32) (hk : k < n)
    (hi : i < 1024) (hk' : k' < n) (hi' : i' < 1024) (w : Word) :
    (m.write32 (slotAt base k i) w).read32 (slotAt base k' i')
      = if k' = k ∧ i' = i then w else m.read32 (slotAt base k' i') := by
  split
  · next h => rw [h.1, h.2, Mem.read32_write32]
  · next h =>
    have ha := toNat_slotAt hbase hk hi
    have hb := toNat_slotAt hbase hk' hi'
    refine Mem.read32_write32_of_disjoint ?_ ?_ <;> bv_omega

/-- A slot depends on its own four bytes. -/
theorem read32_slotAt_congr (hbase : base.toNat + 0x1000 * n ≤ 2 ^ 32) (hk : k < n)
    (hi : i < 1024)
    (h : ∀ b : Word, base.toNat + 0x1000 * k + 4 * i ≤ b.toNat →
      b.toNat < base.toNat + 0x1000 * k + 4 * i + 4 → m' b = m b) :
    m'.read32 (slotAt base k i) = m.read32 (slotAt base k i) := by
  have hs := toNat_slotAt hbase hk hi
  refine Mem.read32_congr fun b hb => ?_
  simp only [Within] at hb
  exact h b (by bv_omega) (by bv_omega)

/-- A table filled with one byte, and the others untouched. -/
theorem read32_slotAt_blit (hbase : base.toNat + 0x1000 * n ≤ 2 ^ 32) (hk : k < n) (hk' : k' < n)
    (hi : i < 1024) :
    (m.blit (base + BitVec.ofNat 32 (0x1000 * k')) 0x1000 fun _ => 0).read32 (slotAt base k i)
      = if k = k' then 0 else m.read32 (slotAt base k i) := by
  split
  · next h =>
    subst h
    have hzero : Mem.read32 (fun _ => 0) (slotAt base k i) = 0 := by simp [Mem.read32]
    rw [← hzero]
    refine read32_slotAt_congr hbase hk hi fun b hlo hhi => Mem.blit_within ?_
    simp only [Within]
    bv_omega
  · next h =>
    refine read32_slotAt_congr hbase hk hi fun b hlo hhi => Mem.blit_not_within ?_
    simp only [Within]
    bv_omega

end X86
