-- SUMMARY: tp1 from end to end: its descriptors, whatever the stack held before, and a copy through a segment of 32 bytes that cannot leave it.
import SecOS.Kernel.String
import SecOS.Kernel.Uart
import SecOS.Tp1.Gdt
import SecOS.X86.Flat

/-!
# Window

tp1 builds its descriptor table on the stack, field by field, loads a segment of 32 bytes into
ES, and copies to address 0 of it. The copy reaches nothing else, however long it is and
wherever it starts, and faults at the first byte that the segment does not have.
-/

namespace SecOS

open X86

namespace Tp1

/-! ## Copies through segments -/

/-- A byte of the segment, counted from its base. -/
def covers (d : Desc) (off : Word) : Bool :=
  if d.isData && d.type.getLsbD 2 then d.limit.ult off && (d.getLsbD 54 || off.ule 0xffff)
  else off.ule d.limit

/-- A data segment in which the offsets are the linear addresses. -/
def flat (d : Desc) : Bool :=
  d.writable && !d.type.getLsbD 2 && d.base == 0 && d.limit == 0xffffffff

/-- What `rep movsb` works on. -/
structure Copying where
  mem : Mem
  ecx : Word
  edi : Word
  esi : Word

/-- One round. Where a segment has no byte it is a fault. -/
def movsb (ds es : Desc) (df : Bool) (c : Copying) : Option Copying :=
  if ds.readable && covers ds c.esi && es.writable && covers es c.edi then
    some
      { mem := c.mem.blit (es.base + c.edi) 1 fun _ => c.mem (ds.base + c.esi)
        ecx := c.ecx - 1, edi := strStep df c.edi 1, esi := strStep df c.esi 1 }
  else none

/-- `rep movsb` with ECX = `cnt`, and whether it ends in a fault. What it has done stays. -/
def segMovsb (ds es : Desc) (df : Bool) : Nat → Copying → Copying × Bool
  | 0, c => (c, false)
  | cnt + 1, c =>
    match movsb ds es df c with
    | some c => segMovsb ds es df cnt c
    | none => (c, true)

/-! ## tp -/

/-- `my_gdt`, `src` and `TSS` are variables of `tp`. -/
structure Image where
  myGdt : Word
  src : Word
  tss : Word
  /-- The stack pointer of `tp`. -/
  esp : Word
  vprintBuffer : Word
  /-- Bytes below the stack pointer that compiled code may overwrite. -/
  cDepth : Nat

def sizeofMyGdt : Nat := 56
def sizeofSrc : Nat := 64

/-- The machine, with the descriptors that DS and ES hold. -/
structure Machine extends Flat where
  dsDsc : Desc
  esDsc : Desc

namespace Machine

def setDs (s : Machine) (sel : Sel) : Option Machine := do
  let d ← s.gdt.lookup sel
  if s.gdt.dataOk s.cpu.cpl sel then some { s with cpu.ds := sel, dsDsc := d } else none

def setEs (s : Machine) (sel : Sel) : Option Machine := do
  let d ← s.gdt.lookup sel
  if s.gdt.dataOk s.cpu.cpl sel then some { s with cpu.es := sel, esDsc := d } else none

def setFs (s : Machine) (sel : Sel) : Option Machine :=
  if s.gdt.dataOk s.cpu.cpl sel then some { s with cpu.fs := sel } else none

def setGs (s : Machine) (sel : Sel) : Option Machine :=
  if s.gdt.dataOk s.cpu.cpl sel then some { s with cpu.gs := sel } else none

def setDataSegs (s : Machine) (sel : Sel) : Option Machine := do
  let s ← s.setDs sel
  let s ← s.setEs sel
  let s ← s.setFs sel
  s.setGs sel

def setSs (s : Machine) (sel : Sel) : Option Machine :=
  if s.gdt.stackOk s.cpu.cpl sel then some { s with cpu.ss := sel } else none

/-- `set_cs`, and `farjump` as far as CS goes. -/
def setCs (s : Machine) (sel : Sel) : Option Machine :=
  if s.gdt.codeOk s.cpu.cpl sel then some { s with cpu.cs := sel } else none

end Machine

/-- The assignments to the fields of a descriptor, in their order. -/
def assignDsc (limit1 : BitVec 16) (base2 : BitVec 8) (type : BitVec 4) (dpl : BitVec 2)
    (limit2 : BitVec 4) (g : BitVec 1) (dsc : Desc) : Desc :=
  let dsc := setField dsc 0 limit1
  let dsc := setField dsc 16 0x0000#16
  let dsc := setField dsc 32 base2
  let dsc := setField dsc 40 type
  let dsc := setField dsc 44 1#1
  let dsc := setField dsc 45 dpl
  let dsc := setField dsc 47 1#1
  let dsc := setField dsc 48 limit2
  let dsc := setField dsc 52 1#1
  let dsc := setField dsc 53 0#1
  let dsc := setField dsc 54 1#1
  let dsc := setField dsc 55 g
  setField dsc 56 0x00#8

/-- What each entry is made, of whatever it was. -/
def myGdtDsc : Nat → Desc → Desc
  | 0 => fun _ => 0
  | 1 => assignDsc 0xffff 0x00 11 0 0xf 1
  | 2 => assignDsc 0xffff 0x00 3 0 0xf 1
  | 3 => assignDsc 0x1f 0x60 3 0 0x0 0
  | 4 => assignDsc 0xffff 0x00 11 3 0xf 1
  | 5 => assignDsc 0xffff 0x00 3 3 0xf 1
  | _ => id

section Code

variable (img : Image)

/-- What calls of `debug` leave behind. -/
structure Left where
  stack : Nat → Byte
  buffer : Nat → Byte

def printed (l : Left) (m : Mem) : Mem :=
  (m.blit (img.esp - BitVec.ofNat 32 img.cDepth) img.cDepth l.stack).blit
    img.vprintBuffer sizeofVprintBuffer l.buffer

def assignEntry (i : Nat) (m : Mem) : Mem :=
  let dsc := descAddr img.myGdt i
  m.write64 dsc (myGdtDsc i (m.read64 dsc))

/-- `my_gdtr` -/
def gdtr : TableReg := ⟨img.myGdt, BitVec.ofNat 16 (sizeofMyGdt - 1)⟩

/-- To the end of the sixth question. Up to there the stores go through the DS of the boot
loader. -/
def flatGdt (s : Machine) : Option Machine := do
  if !flat s.dsDsc then none else
  let s := { s with mem := assignEntry img 2 (assignEntry img 1 (assignEntry img 0 s.mem)) }
  let s := { s with gdtr := gdtr img }
  let s ← s.setDs (gdtKrnSegSel 2)
  s.setCs (gdtKrnSegSel 1)

/-- Up to the copy. `memset` stores through the ES of the boot loader. -/
def window (l₁ l₂ l₃ : Left) (s : Machine) : Option Machine := do
  let s := { s with mem := printed img l₁ s.mem }
  let s ← flatGdt img s
  let s := { s with mem := printed img l₂ s.mem }
  if !flat s.esDsc then none else
  let s := { s with mem := (memset s.mem s.cpu.eflags img.src 0xff 64).2.1 }
  let s := { s with mem := assignEntry img 3 s.mem }
  let s := { s with mem := printed img l₃ s.mem }
  s.setEs (dtSegSel 3 0 0)

/-- `_memcpy8(dst, src, n)` -/
def copy (n : Word) (s : Machine) : Copying × Bool :=
  (fixStrDir (fun df => segMovsb s.dsDsc s.esDsc df n.toNat ⟨s.mem, n, 0, img.src⟩)
    s.cpu.eflags).1

/-- A variable of `tp` as well. -/
def installTss (s : Machine) : Option Machine := do
  let s := { s with mem := s.mem.write32 (img.tss + 4) s.cpu.ebp }
  let s := { s with mem := s.mem.write16 (img.tss + 8) (gdtKrnSegSel 2) }
  let s := { s with mem := s.mem.write64 (descAddr img.myGdt 6) (createTssDsc img.tss) }
  let t ← s.ltr (gdtKrnSegSel 6)
  return { s with toFlat := t }

/-- From the twelfth question on. -/
def userSegs (s : Machine) : Option Machine := do
  let s := { s with mem := assignEntry img 5 (assignEntry img 4 s.mem) }
  let s ← s.setDataSegs (gdtUsrSegSel 5)
  installTss img s

def tp (l₁ l₂ l₃ : Left) (s : Machine) : Option Machine := do
  let s ← window img l₁ l₂ l₃ s
  let (c, fault) := copy img 32 s
  if fault then none else
  userSegs img { s with
    mem := c.mem, cpu := { s.cpu with ecx := c.ecx, edi := c.edi, esi := c.esi } }

end Code

/-! ## What a copy does -/

section Copies

variable {ds es : Desc} {df : Bool} {c c' : Copying} {b : Word} {k n : Nat}

theorem movsb_of_eq_some (h : movsb ds es df c = some c') : covers es c.edi = true ∧
    c'.mem = c.mem.blit (es.base + c.edi) 1 fun _ => c.mem (ds.base + c.esi) := by
  unfold movsb at h
  split at h
  · next hok =>
    obtain rfl := Option.some.inj h
    exact ⟨(Bool.and_eq_true_iff.mp hok).2, rfl⟩
  · cases h

/-- Whatever is copied, nothing outside the segment in ES is written. -/
theorem mem_segMovsb (h : covers es (b - es.base) = false) :
    (segMovsb ds es df n c).1.mem b = c.mem b := by
  induction n generalizing c with
  | zero => rfl
  | succ n ih =>
    unfold segMovsb
    cases hround : movsb ds es df c with
    | none => rfl
    | some c' =>
      obtain ⟨hcovers, hmem⟩ := movsb_of_eq_some hround
      have hb : ¬ Within (es.base + c.edi) 1 b := by
        intro hb
        have hoff : b - es.base = c.edi := by
          simp only [Within] at hb
          bv_omega
        rw [hoff, hcovers] at h
        cases h
      exact ih.trans ((congrFun hmem b).trans (Mem.blit_not_within hb))

/-- `k` rounds are those of the copy without segments, at the linear addresses. -/
def moved (ds es : Desc) (k : Nat) (c : Copying) : Copying where
  mem := repMovsb false c.mem (es.base + c.edi) (ds.base + c.esi) k
  ecx := c.ecx - BitVec.ofNat 32 k
  edi := c.edi + BitVec.ofNat 32 k
  esi := c.esi + BitVec.ofNat 32 k

theorem moved_succ (ds es : Desc) (k : Nat) (c : Copying) :
    moved ds es k
        { mem := c.mem.blit (es.base + c.edi) 1 fun _ => c.mem (ds.base + c.esi)
          ecx := c.ecx - 1, edi := c.edi + 1, esi := c.esi + 1 }
      = moved ds es (k + 1) c := by
  have hsub (a : Word) : a - 1 - BitVec.ofNat 32 k = a - BitVec.ofNat 32 (k + 1) := by bv_omega
  have hadd (a : Word) : a + 1 + BitVec.ofNat 32 k = a + BitVec.ofNat 32 (k + 1) := by bv_omega
  simp only [moved, hsub, hadd, repMovsb, strStep_up, BitVec.add_assoc]

theorem segMovsb_add (hds : ds.readable = true) (hes : es.writable = true)
    (hsrc : ∀ i < k, covers ds (c.esi + BitVec.ofNat 32 i) = true)
    (hdst : ∀ i < k, covers es (c.edi + BitVec.ofNat 32 i) = true) :
    segMovsb ds es false (k + n) c = segMovsb ds es false n (moved ds es k c) := by
  induction k generalizing c with
  | zero => simp only [Nat.zero_add, moved, repMovsb, BitVec.add_zero, BitVec.sub_zero]
  | succ k ih =>
    have hsrc0 := hsrc 0 (Nat.succ_pos k)
    have hdst0 := hdst 0 (Nat.succ_pos k)
    rw [BitVec.add_zero] at hsrc0 hdst0
    have haddr (a : Word) (i : Nat) : a + 1 + BitVec.ofNat 32 i = a + BitVec.ofNat 32 (i + 1) := by
      bv_omega
    have hround : movsb ds es false c = some
        { mem := c.mem.blit (es.base + c.edi) 1 fun _ => c.mem (ds.base + c.esi)
          ecx := c.ecx - 1, edi := c.edi + 1, esi := c.esi + 1 } := by
      simp only [movsb, hds, hes, hsrc0, hdst0, Bool.and_self, if_true, strStep_up]
    rw [← moved_succ, ← ih (fun i hi => ?_) (fun i hi => ?_), Nat.succ_add, segMovsb, hround]
    · exact (congrArg (covers ds) (haddr _ i)).trans (hsrc (i + 1) (Nat.succ_lt_succ hi))
    · exact (congrArg (covers es) (haddr _ i)).trans (hdst (i + 1) (Nat.succ_lt_succ hi))

/-- The first byte that the segment does not have ends the copy. -/
theorem segMovsb_fault (h : covers es c.edi = false) (hn : 0 < n) :
    segMovsb ds es df n c = (c, true) := by
  obtain ⟨n, rfl⟩ := Nat.exists_eq_add_of_lt hn
  have hround : movsb ds es df c = none := by
    simp only [movsb, h, Bool.and_false, Bool.false_eq_true, if_false]
  rw [Nat.zero_add, segMovsb, hround]

end Copies

/-! ## The descriptors -/

section Descriptors

variable {limit1 : BitVec 16} {base2 : BitVec 8} {type : BitVec 4} {dpl pl : BitVec 2}
variable {limit2 : BitVec 4} {g : BitVec 1} {dsc d : Desc} {first last : Word} {s : Bool}
variable {table : Gdt} {sel : Sel}

theorem base_assignDsc : (assignDsc limit1 base2 type dpl limit2 g dsc).base
    = 0x00#8 ++ (base2 ++ 0x0000#16) := by
  have hlow : field (assignDsc limit1 base2 type dpl limit2 g dsc) 16 16 = 0x0000#16 := by
    simp only [assignDsc]
    repeat rw [field_setField_disjoint _ _ (by omega) (by omega)]
    exact field_setField _ _ _ (by decide)
  have hmid : field (assignDsc limit1 base2 type dpl limit2 g dsc) 32 8 = base2 := by
    simp only [assignDsc]
    repeat rw [field_setField_disjoint _ _ (by omega) (by omega)]
    exact field_setField _ _ _ (by decide)
  have hhigh : field (assignDsc limit1 base2 type dpl limit2 g dsc) 56 8 = 0x00#8 := by
    simp only [assignDsc]
    exact field_setField _ _ _ (by decide)
  rw [Desc.base, hlow, hmid, hhigh]

theorem limit_assignDsc : (assignDsc limit1 base2 type dpl limit2 g dsc).limit
    = if g = 1#1 then limit2 ++ limit1 ++ 0xfff#12 else (limit2 ++ limit1).setWidth 32 := by
  have hbit : ∀ g : BitVec 1, g.getLsbD (55 - 55) = (g == 1#1) := by decide
  have hlow : field (assignDsc limit1 base2 type dpl limit2 g dsc) 0 16 = limit1 := by
    simp only [assignDsc]
    repeat rw [field_setField_disjoint _ _ (by omega) (by omega)]
    exact field_setField _ _ _ (by decide)
  have hhigh : field (assignDsc limit1 base2 type dpl limit2 g dsc) 48 4 = limit2 := by
    simp only [assignDsc]
    repeat rw [field_setField_disjoint _ _ (by omega) (by omega)]
    exact field_setField _ _ _ (by decide)
  have hg : (assignDsc limit1 base2 type dpl limit2 g dsc).granular = (g == 1#1) := by
    simp only [Desc.granular, assignDsc]
    rw [getLsbD_setField_disjoint _ _ (by omega) (by omega), getLsbD_setField _ _ _ (by decide),
      if_pos (by omega)]
    exact hbit g
  simp only [Desc.limit, hlow, hhigh, hg, beq_iff_eq]

theorem decodes_assignDsc (hfirst : 0x00#8 ++ (base2 ++ 0x0000#16) = first)
    (hlast : first + (if g = 1#1 then limit2 ++ limit1 ++ 0xfff#12
      else (limit2 ++ limit1).setWidth 32) = last) :
    Decodes (assignDsc limit1 base2 type dpl limit2 g dsc) first last type true dpl := by
  refine decodes_of_base_limit (base_assignDsc.trans hfirst) (by rw [limit_assignDsc, hlast])
    ?_ ?_ ?_ ?_
  · simp only [Desc.type, assignDsc]
    repeat rw [field_setField_disjoint _ _ (by omega) (by omega)]
    exact field_setField _ _ _ (by decide)
  · simp only [Desc.isSegment, assignDsc]
    repeat rw [getLsbD_setField_disjoint _ _ (by omega) (by omega)]
    rw [getLsbD_setField _ _ _ (by decide)]
    rfl
  · simp only [Desc.dpl, assignDsc]
    repeat rw [field_setField_disjoint _ _ (by omega) (by omega)]
    exact field_setField _ _ _ (by decide)
  · simp only [Desc.present, assignDsc]
    repeat rw [getLsbD_setField_disjoint _ _ (by omega) (by omega)]
    rw [getLsbD_setField _ _ _ (by decide)]
    rfl

/-- The kernel's code and data, the window, and code and data of level 3. -/
theorem decodes_myGdtDsc (dsc : Desc) :
    Decodes (myGdtDsc 1 dsc) 0 0xffffffff 11 true 0 ∧
      Decodes (myGdtDsc 2 dsc) 0 0xffffffff 3 true 0 ∧
      Decodes (myGdtDsc 3 dsc) 0x600000 0x60001f 3 true 0 ∧
      Decodes (myGdtDsc 4 dsc) 0 0xffffffff 11 true 3 ∧
      Decodes (myGdtDsc 5 dsc) 0 0xffffffff 3 true 3 :=
  ⟨decodes_assignDsc rfl rfl, decodes_assignDsc rfl rfl, decodes_assignDsc rfl rfl,
    decodes_assignDsc rfl rfl, decodes_assignDsc rfl rfl⟩

/-- A data segment that may be written and grows upwards. -/
theorem Decodes.isData (h : Decodes d first last 3 true dpl) :
    d.readable = true ∧ d.writable = true ∧ ∀ off, covers d off = off.ule (last - first) := by
  have hlimit : d.limit = last - first := by
    rw [← h.limit, h.base]
    bv_omega
  have hdata : d.isData = true := by rw [Desc.isData, h.s, h.type]; rfl
  have hup : (3 : BitVec 4).getLsbD 2 = false := rfl
  refine ⟨by rw [Desc.readable, hdata, Bool.true_or], by rw [Desc.writable, hdata, h.type]; rfl,
    fun off => ?_⟩
  simp only [covers, hdata, h.type, hup, hlimit, Bool.and_false, Bool.false_eq_true, if_false]

theorem Decodes.dataOk (h : Decodes d first last 3 true dpl) (hd : table.lookup sel = some d)
    (hpl : pl.ule dpl = true) (hrpl : sel.rpl.ule dpl = true) : table.dataOk pl sel = true := by
  simp only [Gdt.dataOk, hd, h.p, h.isData.1, h.dpl, hpl, hrpl, Bool.and_self, Bool.or_true]

theorem Decodes.codeOk (h : Decodes d first last 11 true dpl) (hd : table.lookup sel = some d)
    (pl : BitVec 2) : table.codeOk pl sel = (dpl == pl && sel.rpl == pl) := by
  have hcode : d.isCode = true := by rw [Desc.isCode, h.s, h.type]; rfl
  have hconf : d.conforming = false := by rw [Desc.conforming, h.type]; rfl
  simp only [Gdt.codeOk, hd, h.p, hcode, hconf, h.dpl, Bool.not_false, Bool.and_self,
    Bool.true_and]

end Descriptors

/-! ## The table in memory -/

variable {img : Image} {s s' : Machine} {m m' : Mem} {b : Word} {i j : Nat} {l l₁ l₂ l₃ : Left}

/-- What calls of `debug` overwrite. -/
def Image.Lost (img : Image) (b : Word) : Prop :=
  Within (img.esp - BitVec.ofNat 32 img.cDepth) img.cDepth b ∨
    Within img.vprintBuffer sizeofVprintBuffer b

/-- The variables of `tp` lie apart, and clear of all else that is written. -/
structure Image.Apart (img : Image) : Prop where
  gdt_src : ∀ b, Within img.myGdt sizeofMyGdt b → ¬ Within img.src sizeofSrc b
  gdt_tss : ∀ b, Within img.myGdt sizeofMyGdt b → ¬ Within img.tss sizeofTss b
  gdt_lost : ∀ b, Within img.myGdt sizeofMyGdt b → ¬ img.Lost b
  src_lost : ∀ b, Within img.src sizeofSrc b → ¬ img.Lost b
  gdt_window : ∀ b, Within img.myGdt sizeofMyGdt b → ¬ Within 0x600000 32 b
  src_window : ∀ b, Within img.src sizeofSrc b → ¬ Within 0x600000 32 b

/-- Descriptor `i` in memory. -/
def Image.entry (img : Image) (m : Mem) (i : Nat) : Desc := m.read64 (descAddr img.myGdt i)

theorem within_myGdt (hi : i < 7) (h : Within (descAddr img.myGdt i) 8 b) :
    Within img.myGdt sizeofMyGdt b := within_of_descAddr (n := 7) (by decide) hi h

theorem entry_congr (hi : i < 7) (h : ∀ b, Within img.myGdt sizeofMyGdt b → m' b = m b) :
    img.entry m' i = img.entry m i := Mem.read64_congr fun b hb => h b (within_myGdt hi hb)

theorem entry_printed (h : img.Apart) (hi : i < 7) :
    img.entry (printed img l m) i = img.entry m i := by
  refine entry_congr hi fun b hb => ?_
  have hlost := h.gdt_lost b hb
  unfold Image.Lost at hlost
  rw [not_or] at hlost
  exact (Mem.blit_not_within hlost.2).trans (Mem.blit_not_within hlost.1)

theorem entry_assignEntry (hi : i < 7) (hj : j < 7) :
    img.entry (assignEntry img i m) j
      = if j = i then myGdtDsc i (img.entry m i) else img.entry m j :=
  read64_descAddr_write64 (by omega) (by omega)

/-- Loading a selector of the table. -/
theorem lookup_gdt {sel : Sel} (hgdtr : s.gdtr = gdtr img)
    (hsel : (sel.isNull || sel.ti) = false) (hindex : sel.index.toNat = i) (hi : i < 7) :
    s.gdt.lookup sel = some (img.entry s.mem i) := by
  have hlimit : 8 * i + 7 ≤ (gdtr img).limit.toNat := by
    rw [gdtr, sizeofMyGdt, BitVec.toNat_ofNat]
    omega
  unfold Gdt.lookup Flat.gdt
  rw [hsel, hgdtr, hindex]
  exact getElem?_table s.mem hlimit

/-- Entry `i` is made, of whatever it was. -/
def Made (img : Image) (m : Mem) (i : Nat) : Prop := ∃ dsc, img.entry m i = myGdtDsc i dsc

theorem Made.congr (h : Made img m i) (hi : i < 7)
    (hm : ∀ b, Within img.myGdt sizeofMyGdt b → m' b = m b) : Made img m' i := by
  obtain ⟨dsc, hdsc⟩ := h
  exact ⟨dsc, (entry_congr hi hm).trans hdsc⟩

theorem made_assignEntry (hi : i < 7) : Made img (assignEntry img i m) i :=
  ⟨img.entry m i, (entry_assignEntry hi hi).trans (if_pos rfl)⟩

theorem Made.assignEntry (h : Made img m j) (hi : i < 7) (hj : j < 7) (hne : j ≠ i) :
    Made img (assignEntry img i m) j := by
  obtain ⟨dsc, hdsc⟩ := h
  exact ⟨dsc, (entry_assignEntry hi hj).trans ((if_neg hne).trans hdsc)⟩

theorem Made.printed (h : Made img m i) (hapart : img.Apart) (hi : i < 7) :
    Made img (printed img l m) i := by
  obtain ⟨dsc, hdsc⟩ := h
  exact ⟨dsc, (entry_printed hapart hi).trans hdsc⟩

/-! ## The segment registers -/

theorem setDs_eq {d : Desc} {sel : Sel} (hd : s.gdt.lookup sel = some d)
    (hok : s.gdt.dataOk s.cpu.cpl sel = true) :
    s.setDs sel = some { s with cpu.ds := sel, dsDsc := d } := by
  unfold Machine.setDs
  rw [hd, hok]
  rfl

theorem setEs_eq {d : Desc} {sel : Sel} (hd : s.gdt.lookup sel = some d)
    (hok : s.gdt.dataOk s.cpu.cpl sel = true) :
    s.setEs sel = some { s with cpu.es := sel, esDsc := d } := by
  unfold Machine.setEs
  rw [hd, hok]
  rfl

/-- Memory when the table is about to be used. -/
def assignedMem (img : Image) (m : Mem) : Mem :=
  assignEntry img 2 (assignEntry img 1 (assignEntry img 0 m))

theorem made_assignedMem (img : Image) (m : Mem) :
    Made img (assignedMem img m) 1 ∧ Made img (assignedMem img m) 2 := by
  have h1 : Made img (assignEntry img 1 (assignEntry img 0 m)) 1 := made_assignEntry (by decide)
  exact ⟨h1.assignEntry (by decide) (by decide) (by decide), made_assignEntry (by decide)⟩

/-- Level 0 with the new table in the register, its code in CS and its data in DS. -/
def flattened (img : Image) (s : Machine) (d : Desc) : Machine :=
  { s with
    mem := assignedMem img s.mem, gdtr := gdtr img, dsDsc := d
    cpu := { s.cpu with ds := gdtKrnSegSel 2, cs := gdtKrnSegSel 1 } }

@[simp] theorem esDsc_flattened {d : Desc} : (flattened img s d).esDsc = s.esDsc := rfl

theorem flatGdt_eq (img : Image) (s : Machine) (hcpl : s.cpu.cpl = 0)
    (hds : flat s.dsDsc = true) : ∃ d, flatGdt img s = some (flattened img s (myGdtDsc 2 d)) := by
  obtain ⟨⟨d1, hd1⟩, d2, hd2⟩ := made_assignedMem img s.mem
  let t : Machine := { s with mem := assignedMem img s.mem, gdtr := gdtr img }
  have hcode := (decodes_myGdtDsc d1).1
  have hdata := (decodes_myGdtDsc d2).2.1
  have hl1 : t.gdt.lookup (gdtKrnSegSel 1) = some (myGdtDsc 1 d1) :=
    (lookup_gdt rfl (by decide) (by decide) (by decide)).trans (congrArg some hd1)
  have hl2 : t.gdt.lookup (gdtKrnSegSel 2) = some (myGdtDsc 2 d2) :=
    (lookup_gdt rfl (by decide) (by decide) (by decide)).trans (congrArg some hd2)
  have hcpl' : t.cpu.cpl = 0 := hcpl
  have hset := setDs_eq hl2 (by rw [hcpl']; exact hdata.dataOk hl2 (by decide) (by decide))
  have hcs : t.gdt.codeOk t.cpu.cpl (gdtKrnSegSel 1) = true := by
    rw [hcpl', hcode.codeOk hl1]
    decide
  refine ⟨d2, ?_⟩
  unfold flatGdt
  rw [hds]
  exact Option.bind_eq_some_iff.mpr ⟨_, hset, if_pos hcs⟩

/-- The data segments are those of a boot loader. -/
structure Machine.FlatData (s : Machine) : Prop where
  ds : flat s.dsDsc = true
  es : flat s.esDsc = true

/-- The machine in front of the copy. -/
structure Windowed (img : Image) (s s₁ : Machine) : Prop where
  cpu : s₁.cpu = { s.cpu with
    ds := gdtKrnSegSel 2, cs := gdtKrnSegSel 1, es := dtSegSel 3 0 0 }
  gdtr : s₁.gdtr = gdtr img
  ds : Decodes s₁.dsDsc 0 0xffffffff 3 true 0
  es : Decodes s₁.esDsc 0x600000 0x60001f 3 true 0
  src : ∀ i < 64, s₁.mem (img.src + BitVec.ofNat 32 i) = 0xff
  made : Made img s₁.mem 1 ∧ Made img s₁.mem 2 ∧ Made img s₁.mem 3

/-- Memory in front of the copy. -/
def windowMem (img : Image) (l₂ l₃ : Left) (m : Mem) : Mem :=
  printed img l₃ (assignEntry img 3 ((printed img l₂ m).blit img.src sizeofSrc fun _ => 0xff))

theorem within_src {i : Nat} (hi : i < 64) :
    Within img.src sizeofSrc (img.src + BitVec.ofNat 32 i) := by
  simp only [Within, sizeofSrc]
  bv_omega

theorem src_windowMem (h : img.Apart) {i : Nat} (hi : i < 64) :
    windowMem img l₂ l₃ m (img.src + BitVec.ofNat 32 i) = 0xff := by
  have hsrc : Within img.src sizeofSrc (img.src + BitVec.ofNat 32 i) := within_src hi
  have hlost := h.src_lost _ hsrc
  have hgdt : ¬ Within (descAddr img.myGdt 3) 8 (img.src + BitVec.ofNat 32 i) := fun hin =>
    h.gdt_src _ (within_myGdt (by decide) hin) hsrc
  unfold Image.Lost at hlost
  rw [not_or] at hlost
  refine (Mem.blit_not_within hlost.2).trans ((Mem.blit_not_within hlost.1).trans ?_)
  exact (Mem.write64_not_within hgdt).trans (Mem.blit_within hsrc)

theorem made_windowMem (h : img.Apart) (l₂ l₃ : Left) (h1 : Made img m 1) (h2 : Made img m 2) :
    Made img (windowMem img l₂ l₃ m) 1 ∧ Made img (windowMem img l₂ l₃ m) 2 ∧
      Made img (windowMem img l₂ l₃ m) 3 := by
  have hold (i : Nat) (hi : i < 3) (hmade : Made img m i) : Made img (windowMem img l₂ l₃ m) i := by
    have hset : Made img ((printed img l₂ m).blit img.src sizeofSrc fun _ => 0xff) i :=
      (hmade.printed (l := l₂) h (by omega)).congr (by omega) fun b hb =>
        Mem.blit_not_within (h.gdt_src b hb)
    exact (hset.assignEntry (by decide) (by omega) (by omega)).printed h (by omega)
  exact ⟨hold 1 (by decide) h1, hold 2 (by decide) h2,
    (made_assignEntry (by decide)).printed h (by decide)⟩

theorem windowed (h : img.Apart) (l₁ l₂ l₃ : Left) (hcpl : s.cpu.cpl = 0) (hflat : s.FlatData) :
    ∃ s₁, window img l₁ l₂ l₃ s = some s₁ ∧ Windowed img s s₁ := by
  obtain ⟨d2, hgdt⟩ := flatGdt_eq img { s with mem := printed img l₁ s.mem } hcpl hflat.ds
  obtain ⟨h1, h2⟩ := made_assignedMem img (printed img l₁ s.mem)
  have hmade := made_windowMem h l₂ l₃ h1 h2
  obtain ⟨d3, hd3⟩ := hmade.2.2
  have hwindow := (decodes_myGdtDsc d3).2.2.1
  let t : Machine := { flattened img s (myGdtDsc 2 d2) with
    mem := windowMem img l₂ l₃ (assignedMem img (printed img l₁ s.mem)) }
  have hl3 : t.gdt.lookup (dtSegSel 3 0 0) = some (myGdtDsc 3 d3) :=
    (lookup_gdt rfl (by decide) (by decide) (by decide)).trans (congrArg some hd3)
  have hlevel : t.cpu.cpl = 0 := by
    change Sel.rpl (gdtKrnSegSel 1) = 0
    decide
  have hes := setEs_eq hl3 (by rw [hlevel]; exact hwindow.dataOk hl3 (by decide) (by decide))
  refine ⟨{ t with cpu.es := dtSegSel 3 0 0, esDsc := myGdtDsc 3 d3 }, ?_, rfl, rfl,
    (decodes_myGdtDsc d2).2.1, hwindow, fun i hi => src_windowMem h hi, hmade⟩
  unfold window
  simp only [hgdt, memset_eq, esDsc_flattened, hflat.es, Option.bind_eq_bind, Option.bind_some,
    Bool.not_true, Bool.false_eq_true, if_false]
  exact hes

/-! ## The copy -/

section Copy

variable {s₁ s₂ : Machine} {n : Word} {k : Nat}

/-- After `k` bytes of the buffer. -/
def filled (img : Image) (m : Mem) (n : Word) (k : Nat) : Copying where
  mem := m.blit 0x600000 k fun _ => 0xff
  ecx := n - BitVec.ofNat 32 k
  edi := BitVec.ofNat 32 k
  esi := img.src + BitVec.ofNat 32 k

theorem Windowed.covers_ds (h : Windowed img s s₁) (off : Word) : covers s₁.dsDsc off = true := by
  rw [h.ds.isData.2.2]
  simp only [BitVec.ule, decide_eq_true_eq]
  bv_omega

theorem Windowed.covers_es (h : Windowed img s s₁) (off : Word) :
    covers s₁.esDsc off = decide (off.toNat < 32) := by
  rw [h.es.isData.2.2, BitVec.ule, decide_eq_decide]
  bv_omega

theorem Windowed.moved_eq (h : Windowed img s s₁) (hapart : img.Apart) (hk : k ≤ 32) :
    moved s₁.dsDsc s₁.esDsc k ⟨s₁.mem, n, 0, img.src⟩ = filled img s₁.mem n k := by
  have hds : s₁.dsDsc.base + img.src = img.src := by rw [h.ds.base, zero_add]
  have hes : s₁.esDsc.base + 0 = 0x600000 := by rw [h.es.base, add_zero]
  have hahead : Ahead 0x600000 img.src k := by
    intro j i hj hi heq
    refine hapart.src_window _ (within_src (i := i) (by omega)) ?_
    rw [heq]
    simp only [Within]
    bv_omega
  have hmem : repMovsb false s₁.mem 0x600000 img.src k = s₁.mem.blit 0x600000 k fun _ => 0xff := by
    rw [repMovsb_eq _ (by omega) hahead]
    exact Mem.blit_congr_fun fun i hi => h.src i (by omega)
  simp only [moved, filled, hds, hes, hmem, zero_add]

/-- The copy goes on for as long as both the count and the segment last. -/
theorem Windowed.copy_eq (h : Windowed img s s₁) (hapart : img.Apart) (n : Word) :
    copy img n s₁ = (filled img s₁.mem n (min n.toNat 32), decide (32 < n.toNat)) := by
  have hadd (k r : Nat) (hk : k ≤ 32) :
      segMovsb s₁.dsDsc s₁.esDsc false (k + r) ⟨s₁.mem, n, 0, img.src⟩
        = segMovsb s₁.dsDsc s₁.esDsc false r (filled img s₁.mem n k) := by
    rw [← h.moved_eq hapart hk]
    refine segMovsb_add h.ds.isData.1 h.es.isData.2.1 (fun i _ => h.covers_ds _) fun i hi => ?_
    rw [h.covers_es, decide_eq_true_eq]
    bv_omega
  unfold copy
  rw [fixStrDir_eq]
  by_cases hn : n.toNat ≤ 32
  · rw [Nat.min_eq_left hn, decide_eq_false (by omega)]
    exact hadd n.toNat 0 hn
  · have hsum : 32 + (n.toNat - 32) = n.toNat := by omega
    rw [Nat.min_eq_right (by omega), decide_eq_true (by omega), ← hsum, hadd 32 _ le_rfl]
    refine segMovsb_fault ?_ (by omega)
    rw [h.covers_es]
    rfl

/-- Wherever it starts and whichever way it goes, a copy keeps to the 32 bytes. -/
theorem Windowed.confined (h : Windowed img s s₁) {b : Word} (hb : ¬ Within 0x600000 32 b)
    (df : Bool) (cnt : Nat) (c : Copying) :
    (segMovsb s₁.dsDsc s₁.esDsc df cnt c).1.mem b = c.mem b := by
  refine mem_segMovsb ?_
  rw [h.covers_es, h.es.base]
  exact decide_eq_false hb

end Copy

/-! ## The segments of level 3 -/

section UserSegs

variable {t : Machine}

theorem entry_write64 {d : Desc} (hi : i < 7) (hj : j < 7) :
    img.entry (m.write64 (descAddr img.myGdt i) d) j = if j = i then d else img.entry m j :=
  read64_descAddr_write64 (by omega) (by omega)

/-- Memory when the descriptor of the task state segment is there. -/
def tssMem (img : Image) (ebp : Word) (m : Mem) : Mem :=
  ((m.write32 (img.tss + 4) ebp).write16 (img.tss + 8) (gdtKrnSegSel 2)).write64
    (descAddr img.myGdt 6) (createTssDsc img.tss)

theorem entry_tssMem (h : img.Apart) (ebp : Word) (hi : i < 6) :
    img.entry (tssMem img ebp m) i = img.entry m i := by
  refine ((entry_write64 (by decide) (by omega)).trans (if_neg (by omega))).trans ?_
  refine entry_congr (by omega) fun b hb => ?_
  have htss := h.gdt_tss b hb
  rw [Mem.write16_not_within, Mem.write32_not_within]
  all_goals
    refine fun hin => htss ?_
    simp only [Within, sizeofTss, sizeofTssStack, sizeofTssMaps] at *
    bv_omega

/-- A store to the table leaves the task state segment as it is. -/
theorem write64_tss (h : img.Apart) {d : Desc} (hi : i < 7) (hb : Within img.tss sizeofTss b) :
    m.write64 (descAddr img.myGdt i) d b = m b :=
  Mem.write64_not_within fun hin => h.gdt_tss b (within_myGdt hi hin) hb

/-- The stack for level 0 is in the segment, whatever `ltr` does to the descriptor. -/
theorem stack_tssMem (h : img.Apart) (ebp : Word) (d : Desc) :
    let m' := (tssMem img ebp m).write64 (descAddr img.myGdt 6) d
    m'.read32 (img.tss + 4) = ebp ∧ m'.read16 (img.tss + 8) = gdtKrnSegSel 2 := by
  intro m'
  have hkept (b : Word) (hb : Within img.tss sizeofTss b) :
      m' b = (m.write32 (img.tss + 4) ebp).write16 (img.tss + 8) (gdtKrnSegSel 2) b :=
    (write64_tss h (by decide) hb).trans (write64_tss h (by decide) hb)
  constructor
  · refine (Mem.read32_congr fun b hb => hkept b ?_).trans ?_
    · simp only [Within, sizeofTss, sizeofTssStack, sizeofTssMaps] at *
      bv_omega
    · refine (Mem.read32_congr fun b hb => Mem.write16_not_within ?_).trans
        (Mem.read32_write32 ..)
      simp only [Within] at *
      bv_omega
  · refine (Mem.read16_congr fun b hb => hkept b ?_).trans (Mem.read16_write16 ..)
    simp only [Within, sizeofTss, sizeofTssStack, sizeofTssMaps] at *
    bv_omega

/-- `ltr` takes what `create_tss_dsc` has made. -/
theorem ltr_eq (hgdtr : s.gdtr = gdtr img) (hsix : img.entry s.mem 6 = createTssDsc img.tss) :
    s.ltr (gdtKrnSegSel 6) = some { s.toFlat with
      mem := s.mem.write64 (descAddr img.myGdt 6) (setField (createTssDsc img.tss) 40 Flat.tssBusy)
      tr := img.tss } := by
  have hd := @decodes_createTssDsc img.tss
  have hlookup : s.gdt.lookup (gdtKrnSegSel 6) = some (createTssDsc img.tss) :=
    (lookup_gdt hgdtr (by decide) (by decide) (by decide)).trans (congrArg some hsix)
  have htype : (createTssDsc img.tss).type == Flat.tssAvail := by rw [hd.type]; rfl
  have hindex : (gdtKrnSegSel 6).index.toNat = 6 := by decide
  unfold Flat.ltr
  rw [hlookup]
  simp only [Option.bind_eq_bind, Option.bind_some, hd.p, hd.s, htype, Bool.not_false,
    Bool.and_self, Bool.not_true, Bool.false_eq_true, if_false, hd.base, hgdtr, hindex]
  rfl

/-- Level 0 with the data segments of level 3. Its stack and its code stay those of level 0:
neither register takes a descriptor of level 3. -/
structure Ended (img : Image) (s t : Machine) : Prop where
  cpu : t.cpu = { s.cpu with
    ds := gdtUsrSegSel 5, es := gdtUsrSegSel 5, fs := gdtUsrSegSel 5, gs := gdtUsrSegSel 5 }
  made : ∀ i, 1 ≤ i → i ≤ 5 → Made img t.mem i
  tr : t.tr = img.tss
  esp0 : t.esp0 = s.cpu.ebp
  ss0 : t.ss0 = gdtKrnSegSel 2
  stack : t.setSs (gdtUsrSegSel 5) = none
  code : t.setCs (gdtUsrSegSel 4) = none

/-- Memory at the loads of the segment registers. -/
def userMem (img : Image) (m : Mem) : Mem := assignEntry img 5 (assignEntry img 4 m)

theorem made_userMem (h : ∀ i, 1 ≤ i → i ≤ 3 → Made img m i) (h1 : 1 ≤ i) (h5 : i ≤ 5) :
    Made img (userMem img m) i := by
  by_cases hi : i = 5
  · rw [hi]
    exact made_assignEntry (by decide)
  · refine Made.assignEntry ?_ (by decide) (by omega) hi
    by_cases hi' : i = 4
    · rw [hi']
      exact made_assignEntry (by decide)
    · exact (h i h1 (by omega)).assignEntry (by decide) (by omega) hi'

/-- The machine with one selector in the four data segment registers. -/
def withDataSegs (s : Machine) (sel : Sel) (d : Desc) : Machine :=
  { s with
    cpu := { s.cpu with ds := sel, es := sel, fs := sel, gs := sel }, dsDsc := d, esDsc := d }

theorem setDataSegs_eq {d : Desc} {sel : Sel} (hd : s.gdt.lookup sel = some d)
    (hok : s.gdt.dataOk s.cpu.cpl sel = true) :
    s.setDataSegs sel = some (withDataSegs s sel d) := by
  unfold Machine.setDataSegs
  rw [setDs_eq hd hok]
  refine Option.bind_eq_some_iff.mpr ⟨_, rfl, ?_⟩
  refine Option.bind_eq_some_iff.mpr ⟨_, setEs_eq hd hok, ?_⟩
  refine Option.bind_eq_some_iff.mpr ⟨_, if_pos hok, ?_⟩
  exact if_pos hok

/-- The machine with the segment installed. -/
def installed (img : Image) (s : Machine) : Machine :=
  { s with
    mem := (tssMem img s.cpu.ebp s.mem).write64 (descAddr img.myGdt 6)
      (setField (createTssDsc img.tss) 40 Flat.tssBusy)
    tr := img.tss }

theorem installTss_eq (hgdtr : s.gdtr = gdtr img) : installTss img s = some (installed img s) := by
  have hsix : img.entry (tssMem img s.cpu.ebp s.mem) 6 = createTssDsc img.tss :=
    (entry_write64 (by decide) (by decide)).trans (if_pos rfl)
  have hltr := ltr_eq (s := { s with mem := tssMem img s.cpu.ebp s.mem }) hgdtr hsix
  exact Option.bind_eq_some_iff.mpr ⟨_, hltr, rfl⟩

/-- The machine at the loads of the segment registers. -/
def userStart (img : Image) (s : Machine) : Machine := { s with mem := userMem img s.mem }

theorem mem_userStart (img : Image) (s : Machine) :
    (userStart img s).mem = userMem img s.mem := rfl

theorem made_userStart (img : Image) (s : Machine) : Made img (userStart img s).mem 5 := by
  rw [mem_userStart, userMem]
  exact made_assignEntry (by decide)

theorem userSegs_eq (hcpl : s.cpu.cpl = 0) (hgdtr : s.gdtr = gdtr img) :
    ∃ d, userSegs img s
      = some (installed img (withDataSegs (userStart img s) (gdtUsrSegSel 5) d)) := by
  obtain ⟨d5, hd5⟩ := made_userStart img s
  have hdata := (decodes_myGdtDsc d5).2.2.2.2
  have hl5 : (userStart img s).gdt.lookup (gdtUsrSegSel 5) = some (myGdtDsc 5 d5) :=
    (lookup_gdt (s := userStart img s) hgdtr (by decide) (by decide) (by decide)).trans
      (congrArg some hd5)
  have hlevel : (userStart img s).cpu.cpl = 0 := hcpl
  have hsegs := setDataSegs_eq hl5 (by rw [hlevel]; exact hdata.dataOk hl5 (by decide) (by decide))
  exact ⟨_, Option.bind_eq_some_iff.mpr ⟨_, hsegs, installTss_eq hgdtr⟩⟩

/-- Neither the stack segment nor the code segment of level 0 can be one of level 3. -/
theorem refused {t : Machine} (hcpl : t.cpu.cpl = 0) (hgdtr : t.gdtr = gdtr img)
    (h4 : Made img t.mem 4) (h5 : Made img t.mem 5) :
    t.setSs (gdtUsrSegSel 5) = none ∧ t.setCs (gdtUsrSegSel 4) = none := by
  obtain ⟨d4, hd4⟩ := h4
  obtain ⟨d5, hd5⟩ := h5
  have hcode := (decodes_myGdtDsc d4).2.2.2.1
  have hdata := (decodes_myGdtDsc d5).2.2.2.2
  have hl4 : t.gdt.lookup (gdtUsrSegSel 4) = some (myGdtDsc 4 d4) :=
    (lookup_gdt hgdtr (by decide) (by decide) (by decide)).trans (congrArg some hd4)
  have hl5 : t.gdt.lookup (gdtUsrSegSel 5) = some (myGdtDsc 5 d5) :=
    (lookup_gdt hgdtr (by decide) (by decide) (by decide)).trans (congrArg some hd5)
  have hss : t.gdt.stackOk t.cpu.cpl (gdtUsrSegSel 5) = false := by
    have hdpl : ((3 : BitVec 2) == 0) = false := by decide
    rw [Gdt.stackOk, hl5, hcpl]
    simp only [hdata.dpl, hdpl, Bool.and_false, Bool.false_and]
  have hcs : t.gdt.codeOk t.cpu.cpl (gdtUsrSegSel 4) = false := by
    rw [hcpl, hcode.codeOk hl4]
    decide
  constructor
  · exact if_neg (by rw [hss]; decide)
  · exact if_neg (by rw [hcs]; decide)

/-- The machine at the end. -/
def atEnd (img : Image) (s : Machine) (d : Desc) : Machine :=
  installed img (withDataSegs (userStart img s) (gdtUsrSegSel 5) d)

theorem mem_atEnd (img : Image) (s : Machine) (d : Desc) : (atEnd img s d).mem
    = (tssMem img s.cpu.ebp (userMem img s.mem)).write64 (descAddr img.myGdt 6)
      (setField (createTssDsc img.tss) 40 Flat.tssBusy) := rfl

theorem made_atEnd (h : img.Apart) (hmade : ∀ i, 1 ≤ i → i ≤ 3 → Made img s.mem i) (d : Desc)
    (h1 : 1 ≤ i) (h5 : i ≤ 5) : Made img (atEnd img s d).mem i := by
  obtain ⟨dsc, hdsc⟩ := made_userMem hmade h1 h5
  refine ⟨dsc, Eq.trans ?_ hdsc⟩
  rw [mem_atEnd, entry_write64 (by decide) (by omega), if_neg (by omega),
    entry_tssMem h _ (by omega)]

theorem ended (h : img.Apart) (hcpl : s.cpu.cpl = 0) (hgdtr : s.gdtr = gdtr img)
    (hmade : ∀ i, 1 ≤ i → i ≤ 3 → Made img s.mem i) :
    ∃ t, userSegs img s = some t ∧ Ended img s t := by
  obtain ⟨d, hd⟩ := userSegs_eq hcpl hgdtr
  obtain ⟨hesp0, hss0⟩ := stack_tssMem h (m := userMem img s.mem) s.cpu.ebp
    (setField (createTssDsc img.tss) 40 Flat.tssBusy)
  obtain ⟨hss, hcs⟩ := refused (t := atEnd img s d) hcpl hgdtr
    (made_atEnd h hmade d (by decide) (by decide)) (made_atEnd h hmade d (by decide) (by decide))
  exact ⟨atEnd img s d, hd, rfl, fun i h1 h5 => made_atEnd h hmade d h1 h5, rfl, hesp0, hss0, hss,
    hcs⟩

end UserSegs

/-! ## The run -/

/-- The machine when 32 bytes have been copied. -/
def copied (img : Image) (s : Machine) : Machine :=
  { s with
    mem := s.mem.blit 0x600000 32 fun _ => 0xff
    cpu := { s.cpu with ecx := 0, edi := 32, esi := img.src + 32 } }

theorem mem_copied (img : Image) (s : Machine) :
    (copied img s).mem = s.mem.blit 0x600000 32 fun _ => 0xff := rfl

theorem tp_eq {s₁ : Machine} (h : img.Apart) (hwindow : window img l₁ l₂ l₃ s = some s₁)
    (hwindowed : Windowed img s s₁) : tp img l₁ l₂ l₃ s = userSegs img (copied img s₁) := by
  have hcopy := hwindowed.copy_eq h 32
  unfold tp
  simp only [hwindow, hcopy, Option.bind_eq_bind, Option.bind_some]
  rfl

/-- Whatever is on the stack where `tp` has its variables, and whatever its messages leave
behind: if the boot loader's data segments are flat, it loads its own descriptors, copies its
32 bytes, and comes to its end. A longer copy faults behind the last byte of the segment, with
the rest of the count in ECX, and no copy through ES, of any length, from and to anywhere, up or
down, writes anything but those bytes. -/
theorem window_of_tp (h : img.Apart) (hcpl : s.cpu.cpl = 0) (hflat : s.FlatData)
    (l₁ l₂ l₃ : Left) :
    ∃ s₁ t, window img l₁ l₂ l₃ s = some s₁ ∧ Windowed img s s₁ ∧
      (∀ n, copy img n s₁ = (filled img s₁.mem n (min n.toNat 32), decide (32 < n.toNat))) ∧
      (∀ b, ¬ Within 0x600000 32 b → ∀ df cnt c,
        (segMovsb s₁.dsDsc s₁.esDsc df cnt c).1.mem b = c.mem b) ∧
      tp img l₁ l₂ l₃ s = some t ∧ Ended img (copied img s₁) t := by
  obtain ⟨s₁, hwindow, hwindowed⟩ := windowed h l₁ l₂ l₃ hcpl hflat
  have hlevel : (copied img s₁).cpu.cpl = 0 := by
    have hcs : s₁.cpu.cs = gdtKrnSegSel 1 := by rw [hwindowed.cpu]
    change Sel.rpl s₁.cpu.cs = 0
    rw [hcs]
    decide
  have hmade (i : Nat) (h1 : 1 ≤ i) (h3 : i ≤ 3) : Made img (copied img s₁).mem i := by
    have hold : Made img s₁.mem i := by
      obtain ⟨hmade1, hmade2, hmade3⟩ := hwindowed.made
      obtain rfl | rfl | rfl : i = 1 ∨ i = 2 ∨ i = 3 := by omega
      · exact hmade1
      · exact hmade2
      · exact hmade3
    refine hold.congr (by omega) fun b hb => ?_
    rw [mem_copied]
    exact Mem.blit_not_within (h.gdt_window b hb)
  obtain ⟨t, ht, hended⟩ := ended h hlevel hwindowed.gdtr hmade
  exact ⟨s₁, t, hwindow, hwindowed, hwindowed.copy_eq h,
    fun b hb df cnt c => hwindowed.confined hb df cnt c,
    (tp_eq h hwindow hwindowed).trans ht, hended⟩

/-! ## A sample -/

/-- The stack of the kernel ends at 0x302000. Its task state segment is longer than that. -/
def sampleImage : Image where
  myGdt := 0x301f80
  src := 0x301f40
  tss := 0x2ffe00
  esp := 0x2ffd00
  vprintBuffer := 0x30b000
  cDepth := 0x200

theorem apart_sample : sampleImage.Apart where
  gdt_src _ h := h.not_within (by decide) (by decide)
  gdt_tss _ h := h.not_within (by decide) (by decide)
  gdt_lost _ h := not_or.mpr
    ⟨h.not_within (by decide) (by decide), h.not_within (by decide) (by decide)⟩
  src_lost _ h := not_or.mpr
    ⟨h.not_within (by decide) (by decide), h.not_within (by decide) (by decide)⟩
  gdt_window _ h := h.not_within (by decide) (by decide)
  src_window _ h := h.not_within (by decide) (by decide)

/-- Every byte of memory is 0xa5. -/
def sampleMachine : Machine where
  cpu :=
    { eax := 0, ecx := 0, edx := 0, ebx := 0, esp := 0x2ffd00, ebp := 0x301fe0, esi := 0, edi := 0
      eip := 0x303f00, eflags := 2, cs := 8, ss := 16, ds := 16, es := 16, fs := 16, gs := 16
      cr0 := 0x11, cr2 := 0, cr3 := 0, cr4 := 0, shadow := false }
  mem := fun _ => 0xa5
  gdtr := ⟨0x8f8c, 39⟩
  idtr := ⟨0x30a000, 2047⟩
  tr := 0
  dsDsc := 0x00cf93000000ffff
  esDsc := 0x00cf93000000ffff

def sampleLeft : Left := ⟨fun _ => 0x5a, fun _ => 0x5a⟩

/-- The copy of the eleventh question stops half way. -/
theorem window_sample :
    ∃ s₁ t, window sampleImage sampleLeft sampleLeft sampleLeft sampleMachine = some s₁ ∧
      tp sampleImage sampleLeft sampleLeft sampleLeft sampleMachine = some t ∧
      t.esp0 = 0x301fe0 ∧ copy sampleImage 64 s₁
        = (⟨s₁.mem.blit 0x600000 32 fun _ => 0xff, 32, 32, 0x301f60⟩, true) := by
  obtain ⟨s₁, t, hwindow, hwindowed, hcopy, -, htp, hended⟩ := window_of_tp apart_sample
    (s := sampleMachine) rfl ⟨rfl, rfl⟩ sampleLeft sampleLeft sampleLeft
  refine ⟨s₁, t, hwindow, htp, ?_, hcopy 64⟩
  have hebp : (copied sampleImage s₁).cpu.ebp = 0x301fe0 := by
    change s₁.cpu.ebp = 0x301fe0
    rw [hwindowed.cpu]
    rfl
  exact hended.esp0.trans hebp

end Tp1

end SecOS
