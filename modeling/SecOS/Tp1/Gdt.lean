-- SUMMARY: How the contents of a descriptor table are printed, and the byte ranges that the kernel's descriptors decode to.
import SecOS.Base.Stride
import SecOS.Kernel.Intr

/-!
# Contents of a descriptor table

`print_gdt_content` takes the descriptors of a table apart and prints the first and the
last byte of each segment. It reads base and limit as the processor does.
-/

namespace SecOS

open X86

namespace Tp1

/-! ## Printing -/

/-- `start` in `print_gdt_content`. -/
def segStart (dsc : Desc) : Word :=
  (field dsc 56 8).setWidth 32 <<< 24 ||| (field dsc 32 8).setWidth 32 <<< 16
    ||| (field dsc 16 16).setWidth 32

/-- `end` in `print_gdt_content`. -/
def segEnd (dsc : Desc) : Word :=
  let limit := (field dsc 48 4).setWidth 32 <<< 16 ||| (field dsc 0 16).setWidth 32
  if dsc.granular then segStart dsc + (limit <<< 12) + 4095 else segStart dsc + limit

def bitArg (b : Bool) : Arg := .word ((BitVec.ofBool b).setWidth 32)

/-- What is printed of descriptor `i`. -/
def descLines (i : Nat) (dsc : Desc) : List Line :=
  [⟨"%d ", [.word (BitVec.ofNat 32 i)]⟩,
    ⟨"[0x%x ", [.word (segStart dsc)]⟩,
    ⟨"- 0x%x] ", [.word (segEnd dsc)]⟩,
    ⟨"seg_t: 0x%x ", [.word (dsc.type.setWidth 32)]⟩,
    ⟨"desc_t: %d ", [bitArg dsc.isSegment]⟩,
    ⟨"priv: %d ", [.word (dsc.dpl.setWidth 32)]⟩,
    ⟨"present: %d ", [bitArg dsc.present]⟩,
    ⟨"avl: %d ", [bitArg (dsc.getLsbD 52)]⟩,
    ⟨"longmode: %d ", [bitArg (dsc.getLsbD 53)]⟩,
    ⟨"default: %d ", [bitArg (dsc.getLsbD 54)]⟩,
    ⟨"gran: %d ", [bitArg dsc.granular]⟩,
    ⟨"\n", []⟩]

def sizeofSegDesc : Word := 8

/-- `print_gdt_content` of a table that starts at `addr`. The pointer is compared with
the address of the last byte of the table. -/
def printGdtContent (mem : Mem) (addr : Word) (limit : BitVec 16) (fuel : Nat) :
    Option (List Line) :=
  (Stride.collect mem.read64 sizeofSegDesc (addr + limit.setWidth 32) fuel addr).map fun dscs =>
    (dscs.mapIdx descLines).flatten

/-- A register whose limit is the size of `n` descriptors less one gives their lines, one
descriptor after another. -/
theorem printGdtContent_eq (mem : Mem) {addr : Word} {limit : BitVec 16} {n : Nat}
    (hlimit : limit.toNat + 1 = n * 8) (hwrap : addr.toNat + n * 8 < 2 ^ 32) :
    printGdtContent mem addr limit (n + 1)
      = some ((((List.iterate (· + sizeofSegDesc) addr n).map mem.read64).mapIdx
          descLines).flatten) := by
  have hstop : (addr + limit.setWidth 32).toNat = addr.toNat + limit.toNat := by
    rw [BitVec.toNat_add, BitVec.toNat_setWidth_of_le (by decide)]
    exact Nat.mod_eq_of_lt (by omega)
  have hsizeof : sizeofSegDesc.toNat = 8 := rfl
  have hcollect : Stride.collect mem.read64 sizeofSegDesc (addr + limit.setWidth 32) (n + 1) addr
      = some ((List.iterate (· + sizeofSegDesc) addr n).map mem.read64) :=
    Stride.collect_eq (fun i hi => by rw [hstop, hsizeof]; omega) (by rw [hstop, hsizeof]; omega)
      (by rw [hsizeof]; omega) (Nat.lt_succ_self n)
  unfold printGdtContent
  rw [hcollect, Option.map_some]

/-! ## Base and limit -/

theorem segStart_eq (dsc : Desc) : segStart dsc = dsc.base := by
  have hbase : dsc.base = (field dsc 56 8 ++ field dsc 32 8 ++ field dsc 16 16).setWidth 32 := by
    rw [BitVec.setWidth_eq, BitVec.append_assoc]
    rfl
  rw [hbase, BitVec.setWidth_append_append_eq_shiftLeft_setWidth_or]
  rfl

/-- A number of pages, all but the last byte of the last one. -/
theorem shiftLeft_add_page (x : BitVec 20) : x.setWidth 32 <<< 12 + 4095 = x ++ 0xfff#12 := by
  have hvalue : (x ++ 0xfff#12).toNat = x.toNat * 4096 + 4095 := by
    rw [BitVec.toNat_append, ← Nat.shiftLeft_add_eq_or_of_lt (by decide), Nat.shiftLeft_eq]
    rfl
  apply BitVec.eq_of_toNat_eq
  rw [hvalue]
  bv_omega

/-- The last byte is the one that the processor takes for it. -/
theorem segEnd_eq (dsc : Desc) : segEnd dsc = dsc.base + dsc.limit := by
  have hraw : (field dsc 48 4).setWidth 32 <<< 16 ||| (field dsc 0 16).setWidth 32
      = (field dsc 48 4 ++ field dsc 0 16).setWidth 32 :=
    BitVec.setWidth_append_eq_shiftLeft_setWidth_or.symm
  unfold segEnd Desc.limit
  simp only [segStart_eq, hraw]
  split
  · rw [BitVec.add_assoc, shiftLeft_add_page]
  · rfl

/-! ## The kernel's descriptors -/

/-- `dsc` is printed as a present descriptor of the bytes from `first` to `last`, and the
processor reads it so. -/
structure Decodes (dsc : Desc) (first last : Word) (type : BitVec 4) (s : Bool)
    (dpl : BitVec 2) : Prop where
  start : segStart dsc = first
  stop : segEnd dsc = last
  base : dsc.base = first
  limit : dsc.base + dsc.limit = last
  type : dsc.type = type
  s : dsc.isSegment = s
  dpl : dsc.dpl = dpl
  p : dsc.present = true

variable {dsc : Desc} {first last tss : Word} {type typ : BitVec 4} {s : Bool} {dpl pvl : BitVec 2}

/-- The processor's base and limit decide what is printed. -/
theorem decodes_of_base_limit (hbase : dsc.base = first) (hlimit : first + dsc.limit = last)
    (htype : dsc.type = type) (hs : dsc.isSegment = s) (hdpl : dsc.dpl = dpl)
    (hp : dsc.present = true) : Decodes dsc first last type s dpl where
  start := (segStart_eq dsc).trans hbase
  stop := by rw [segEnd_eq, hbase, hlimit]
  base := hbase
  limit := by rw [hbase, hlimit]
  type := htype
  s := hs
  dpl := hdpl
  p := hp

theorem base_gdtFlatDsc : (gdtFlatDsc pvl typ).base = 0 := by
  have hlow : field (gdtFlatDsc pvl typ) 16 16 = 0 := by
    simp only [gdtFlatDsc]
    repeat rw [field_setField_disjoint _ _ (by omega) (by omega)]
    rfl
  have hmid : field (gdtFlatDsc pvl typ) 32 8 = 0 := by
    simp only [gdtFlatDsc]
    repeat rw [field_setField_disjoint _ _ (by omega) (by omega)]
    rfl
  have hhigh : field (gdtFlatDsc pvl typ) 56 8 = 0 := by
    simp only [gdtFlatDsc]
    repeat rw [field_setField_disjoint _ _ (by omega) (by omega)]
    rfl
  unfold Desc.base
  rw [hlow, hmid, hhigh]
  rfl

/-- All pages, by the granularity bit. -/
theorem limit_gdtFlatDsc : (gdtFlatDsc pvl typ).limit = 0xffffffff := by
  have hg : (gdtFlatDsc pvl typ).granular = true := by
    simp only [Desc.granular, gdtFlatDsc]
    repeat rw [getLsbD_setField_disjoint _ _ (by omega) (by omega)]
    rw [getLsbD_setField _ _ _ (by decide)]
    rfl
  have hlow : field (gdtFlatDsc pvl typ) 0 16 = 0xffff := by
    simp only [gdtFlatDsc]
    repeat rw [field_setField_disjoint _ _ (by omega) (by omega)]
    exact field_setField _ _ _ (by decide)
  have hhigh : field (gdtFlatDsc pvl typ) 48 4 = 0xf := by
    simp only [gdtFlatDsc]
    repeat rw [field_setField_disjoint _ _ (by omega) (by omega)]
    exact field_setField _ _ _ (by decide)
  simp only [Desc.limit, hg, hlow, hhigh, if_true]
  rfl

theorem decodes_gdtFlatDsc (pvl : BitVec 2) (typ : BitVec 4) :
    Decodes (gdtFlatDsc pvl typ) 0 0xffffffff typ true pvl := by
  refine decodes_of_base_limit base_gdtFlatDsc (by rw [limit_gdtFlatDsc]; rfl) ?_ ?_ ?_ ?_
  · simp only [Desc.type, gdtFlatDsc]
    repeat rw [field_setField_disjoint _ _ (by omega) (by omega)]
    exact field_setField _ _ _ (by decide)
  · simp only [Desc.isSegment, gdtFlatDsc]
    repeat rw [getLsbD_setField_disjoint _ _ (by omega) (by omega)]
    rw [getLsbD_setField _ _ _ (by decide)]
    rfl
  · simp only [Desc.dpl, gdtFlatDsc]
    repeat rw [field_setField_disjoint _ _ (by omega) (by omega)]
    exact field_setField _ _ _ (by decide)
  · simp only [Desc.present, gdtFlatDsc]
    rw [getLsbD_setField _ _ _ (by decide)]
    rfl

theorem base_createTssDsc : (createTssDsc tss).base = tss := by
  have hlow : field (createTssDsc tss) 16 16 = field tss 0 16 := by
    simp only [createTssDsc]
    repeat rw [field_setField_disjoint _ _ (by omega) (by omega)]
    exact field_setField _ _ _ (by decide)
  have hmid : field (createTssDsc tss) 32 8 = field tss 16 8 := by
    simp only [createTssDsc]
    repeat rw [field_setField_disjoint _ _ (by omega) (by omega)]
    exact field_setField _ _ _ (by decide)
  have hhigh : field (createTssDsc tss) 56 8 = field tss 24 8 := by
    simp only [createTssDsc]
    repeat rw [field_setField_disjoint _ _ (by omega) (by omega)]
    exact field_setField _ _ _ (by decide)
  have htop : field tss 16 8 ++ field tss 0 16 = field tss 0 24 :=
    BitVec.extractLsb'_append_extractLsb'_eq_extractLsb' rfl
  have hall : field tss 24 8 ++ field tss 0 24 = field tss 0 32 :=
    BitVec.extractLsb'_append_extractLsb'_eq_extractLsb' rfl
  unfold Desc.base
  rw [hlow, hmid, hhigh, htop, hall]
  exact BitVec.extractLsb'_eq_self

/-- The descriptor covers one byte more than the segment has. -/
theorem decodes_createTssDsc (tss : Word) :
    Decodes (createTssDsc tss) tss (tss + BitVec.ofNat 32 sizeofTss) segDescSysTssAvl32 false
      0 := by
  refine decodes_of_base_limit base_createTssDsc (by rw [limit_createTssDsc]) ?_ ?_ ?_ ?_
  · simp only [Desc.type, createTssDsc]
    repeat rw [field_setField_disjoint _ _ (by omega) (by omega)]
    exact field_setField _ _ _ (by decide)
  · simp only [Desc.isSegment, createTssDsc]
    repeat rw [getLsbD_setField_disjoint _ _ (by omega) (by omega)]
    decide
  · simp only [Desc.dpl, createTssDsc]
    repeat rw [field_setField_disjoint _ _ (by omega) (by omega)]
    decide
  · simp only [Desc.present, createTssDsc]
    rw [getLsbD_setField _ _ _ (by decide)]
    rfl

/-- The last byte of a task state segment at `tss`. -/
def tssLast (tss : Word) : Word := tss + BitVec.ofNat 32 (sizeofTss - 1)

theorem ne_tssLast (tss : Word) : tss + BitVec.ofNat 32 sizeofTss ≠ tssLast tss := by
  intro h
  exact absurd ((BitVec.add_right_inj tss).mp h) (by decide)

/-- The flat descriptors decode to what they are made from. A TSS descriptor has the type
and the base that it should have, wherever the segment is, and never its limit. -/
theorem decodes_descriptors (tss : Word) (pvl : BitVec 2) (typ : BitVec 4) :
    Decodes (gdtFlatDsc pvl typ) 0 0xffffffff typ true pvl ∧
      Decodes (createTssDsc tss) tss (tss + BitVec.ofNat 32 sizeofTss) segDescSysTssAvl32 false 0 ∧
      ¬ Decodes (createTssDsc tss) tss (tssLast tss) segDescSysTssAvl32 false 0 := by
  refine ⟨decodes_gdtFlatDsc pvl typ, decodes_createTssDsc tss, fun h => ?_⟩
  exact ne_tssLast tss ((decodes_createTssDsc tss).stop.symm.trans h.stop)

/-- A segment at 1 MB seems to reach one byte further than it does. -/
theorem not_decodes_createTssDsc_megabyte :
    (0x100000 : Word).toNat + sizeofTss ≤ 2 ^ 32 ∧
      ¬ Decodes (createTssDsc 0x100000) 0x100000 (tssLast 0x100000) segDescSysTssAvl32 false 0 := by
  refine ⟨by decide, fun h => ?_⟩
  exact ne_tssLast 0x100000 ((decodes_createTssDsc 0x100000).stop.symm.trans h.stop)

end Tp1

end SecOS
