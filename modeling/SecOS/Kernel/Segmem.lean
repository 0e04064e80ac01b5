-- SUMMARY: Segment selectors, segment and TSS descriptors as the kernel's macros build them, and the layout of the task state segment.
import SecOS.X86.Descriptor
import SecOS.X86.Memory

/-!
# Segmentation

The selector and descriptor macros of `segmem.h`, and `tss_t` with the byte at
each of its offsets. The bit-field writes of a macro stand in its order.
-/

namespace SecOS

open X86

/-! ## Selectors -/

def segSelGdt : Sel := 0
def segSelKrn : Sel := 0
def segSelUsr : Sel := 3

def dtSegSel (idx ti rpl : Sel) : Sel := (idx <<< 3) ||| (ti <<< 2) ||| rpl
def gdtSegSel (idx rpl : Sel) : Sel := dtSegSel idx segSelGdt rpl
def gdtKrnSegSel (idx : Sel) : Sel := gdtSegSel idx segSelKrn
def gdtUsrSegSel (idx : Sel) : Sel := gdtSegSel idx segSelUsr

/-! ## Task state segment -/

structure TssStack where
  esp : Word
  ss : Sel
  pad : BitVec 16
  deriving DecidableEq

structure TssMaps where
  addr : BitVec 16
  intr : Vector Byte 32
  io : Vector Byte 8192
  boundary : Byte
  deriving DecidableEq

/-- The 32-bit task state segment. The fields from the back link to the trap word
that are no stack are kept as the words they fill. -/
structure Tss where
  /-- `back_link` and `r1`. -/
  link : Word
  s0 : TssStack
  s1 : TssStack
  s2 : TssStack
  /-- `cr3`, `eip`, `eflags`, the eight general registers, and the seven selectors
  from `es` to `ldt` with their padding. -/
  saved : Vector Word 18
  trap : BitVec 16
  maps : TssMaps
  deriving DecidableEq

def sizeofTssStack : Nat := 8
def sizeofTssMaps : Nat := 2 + 32 + 8192 + 1
def sizeofTss : Nat := 4 + 3 * sizeofTssStack + 4 * 18 + 2 + sizeofTssMaps

def TssStack.byteAt (t : TssStack) (k : Nat) : Byte :=
  if k < 4 then Mem.byteOf t.esp k
  else if k < 6 then field t.ss (8 * (k - 4)) 8
  else field t.pad (8 * (k - 6)) 8

def TssMaps.byteAt (t : TssMaps) (k : Nat) : Byte :=
  if k < 2 then field t.addr (8 * k) 8
  else if k < 34 then t.intr[k - 2]?.getD 0
  else if k < 8226 then t.io[k - 34]?.getD 0
  else t.boundary

/-- The byte `k` bytes into the segment. -/
def Tss.byteAt (t : Tss) (k : Nat) : Byte :=
  if k < 4 then Mem.byteOf t.link k
  else if k < 12 then t.s0.byteAt (k - 4)
  else if k < 20 then t.s1.byteAt (k - 12)
  else if k < 28 then t.s2.byteAt (k - 20)
  else if k < 100 then Mem.byteOf (t.saved[(k - 28) / 4]?.getD 0) ((k - 28) % 4)
  else if k < 102 then field t.trap (8 * (k - 100)) 8
  else t.maps.byteAt (k - 102)

/-- The segment as the zeroed `.bss` of the image holds it. -/
def Tss.zero : Tss where
  link := 0
  s0 := ⟨0, 0, 0⟩
  s1 := ⟨0, 0, 0⟩
  s2 := ⟨0, 0, 0⟩
  saved := Vector.replicate 18 0
  trap := 0
  maps := ⟨0, Vector.replicate 32 0, Vector.replicate 8192 0, 0⟩

/-! ## Descriptors -/

def segDescDataRw : BitVec 4 := 0x2
def segDescCodeXr : BitVec 4 := 0xa
def segDescSysTssAvl32 : BitVec 4 := 0x9
def segDescSysTssBusy32 : BitVec 4 := 0xb
def segDescSysIntrGate32 : BitVec 4 := 0xe

/-- `gdt_flat_dsc`: base 0, limit 4 GB. -/
def gdtFlatDsc (pvl : BitVec 2) (typ : BitVec 4) : Desc :=
  let dsc : Desc := 0
  let dsc := setField dsc 0 0xffff#16
  let dsc := setField dsc 48 0xf#4
  let dsc := setField dsc 40 typ
  let dsc := setField dsc 45 pvl
  let dsc := setField dsc 54 1#1
  let dsc := setField dsc 55 1#1
  let dsc := setField dsc 44 1#1
  setField dsc 47 1#1

/-- `create_tss_dsc`: the size of the segment, not its last offset, goes into the
limit. -/
def createTssDsc (tss : Word) : Desc :=
  let dsc : Desc := BitVec.ofNat 64 sizeofTss
  let dsc := setField dsc 16 (field tss 0 16)
  let dsc := setField dsc 32 (field tss 16 8)
  let dsc := setField dsc 56 (field tss 24 8)
  let dsc := setField dsc 40 segDescSysTssAvl32
  setField dsc 47 1#1

/-- `ltr` marks the descriptor it loads as busy. -/
def setTr (dsc : Desc) : Desc := setField dsc 40 segDescSysTssBusy32

/-- The limit is the size of the segment, one more than the offset of its last byte. -/
theorem limit_createTssDsc (tss : Word) :
    (createTssDsc tss).limit = BitVec.ofNat 32 sizeofTss := by
  have hg : (createTssDsc tss).granular = false := by
    simp only [Desc.granular, createTssDsc]
    repeat rw [getLsbD_setField_disjoint _ _ (by omega) (by omega)]
    decide
  have hhigh : field (createTssDsc tss) 48 4 = 0 := by
    simp only [createTssDsc]
    repeat rw [field_setField_disjoint _ _ (by omega) (by omega)]
    decide
  have hlow : field (createTssDsc tss) 0 16 = BitVec.ofNat 16 sizeofTss := by
    simp only [createTssDsc]
    repeat rw [field_setField_disjoint _ _ (by omega) (by omega)]
    decide
  simp only [Desc.limit, hg, hhigh, hlow]
  decide

theorem limit_setTr (dsc : Desc) : (setTr dsc).limit = dsc.limit := by
  unfold Desc.limit Desc.granular setTr
  rw [getLsbD_setField_disjoint _ _ (by omega) (by omega),
    field_setField_disjoint _ _ (by omega) (by omega),
    field_setField_disjoint _ _ (by omega) (by omega)]

/-- Loading the register leaves the limit as it is. -/
theorem limit_setTr_createTssDsc (tss : Word) :
    (setTr (createTssDsc tss)).limit = BitVec.ofNat 32 sizeofTss := by
  rw [limit_setTr, limit_createTssDsc]

end SecOS
