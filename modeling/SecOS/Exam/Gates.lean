-- SUMMARY: What the descriptor tables of the exam kernel mean to the processor: which selectors load at which level, and where each gate leads.
import SecOS.Exam.Config
import Mathlib.Tactic.FinCases

/-!
# Descriptor tables of the exam kernel

The two writers of the gate table, the loop of `intr_init` and the patches of
`config_interrupt`, are read back here as the processor does, and so are the
segment descriptors.
-/

namespace SecOS

open X86

/-! ## Segments -/

section Segments

variable (tss : Word)

@[simp] theorem codeOk_c0Sel : (examGdt tss).codeOk 0 c0Sel = true := rfl
@[simp] theorem stackOk_d0Sel : (examGdt tss).stackOk 0 d0Sel = true := rfl
@[simp] theorem codeOk_c3Sel : (examGdt tss).codeOk 3 c3Sel = true := rfl
@[simp] theorem stackOk_d3Sel : (examGdt tss).stackOk 3 d3Sel = true := rfl
@[simp] theorem dataOk_d3Sel (pl : BitVec 2) : (examGdt tss).dataOk pl d3Sel = true := by
  have hd : (examGdt tss).lookup d3Sel = some (gdtFlatDsc 3 segDescDataRw) := rfl
  rw [Gdt.dataOk, hd]
  revert pl
  decide
/-- The null selector may be loaded. -/
@[simp] theorem dataOk_null (pl : BitVec 2) : (examGdt tss).dataOk pl 0#16 = true := rfl
@[simp] theorem dataUsable_d3Sel : (examGdt tss).dataUsable d3Sel = true := rfl
@[simp] theorem outerData_d3Sel : (examGdt tss).outerData 3 d3Sel = d3Sel := rfl
@[simp] theorem cpl_c3Sel : Sel.rpl c3Sel = 3 := rfl
@[simp] theorem cpl_c0Sel : Sel.rpl c0Sel = 0 := rfl

/-- A selector is made of its three fields. -/
theorem sel_eq (s : Sel) :
    s.toNat = s.index.toNat * 8 + (if s.ti then 4 else 0) + s.rpl.toNat := by
  have hi : s.index.toNat = s.toNat / 2 ^ 3 % 2 ^ 13 := toNat_field s 3 13
  have hr : s.rpl.toNat = s.toNat / 2 ^ 0 % 2 ^ 2 := toNat_field s 0 2
  have hlt := s.isLt
  have ht : s.ti = decide (s.toNat / 2 ^ 2 % 2 = 1) := by
    simp [Sel.ti, BitVec.getLsbD, Nat.testBit_eq_decide_div_mod_eq]
  rw [hi, hr, ht]
  simp only [decide_eq_true_eq]
  split <;> omega

/-- The descriptors a lookup can give, with the selector's index. -/
theorem lookup_examGdt {s : Sel} {d : Desc} (h : (examGdt tss).lookup s = some d) :
    s.ti = false ∧ 1 ≤ s.index.toNat ∧ s.index.toNat ≤ 5
      ∧ (examGdt tss)[s.index.toNat]? = some d := by
  simp only [Gdt.lookup] at h
  split at h
  · cases h
  · next hnull =>
    simp only [Sel.isNull, Bool.or_eq_true, Bool.and_eq_true, beq_iff_eq, Bool.not_eq_true',
      not_or, not_and, Bool.not_eq_false, Bool.not_eq_true] at hnull
    obtain ⟨hidx, hti⟩ := hnull
    have hlt : s.index.toNat < 6 := (List.getElem?_eq_some_iff.mp h).1
    have hpos : s.index.toNat ≠ 0 := by
      intro h0
      have := hidx (BitVec.eq_of_toNat_eq h0)
      rw [hti] at this
      cases this
    exact ⟨hti, by omega, by omega, h⟩

theorem isSegment_tssDesc : (setTr (createTssDsc tss)).isSegment = false := by
  simp only [Desc.isSegment, setTr, createTssDsc]
  repeat rw [getLsbD_setField_disjoint _ _ (by omega) (by omega)]
  decide

/-- The only code segment of level 3. -/
theorem codeOk_three {s : Sel} (h : (examGdt tss).codeOk 3 s = true) : s = c3Sel := by
  simp only [Gdt.codeOk] at h
  split at h
  · next d hd =>
    obtain ⟨hti, hlo, hhi, hget⟩ := lookup_examGdt tss hd
    simp only [Bool.and_eq_true, beq_iff_eq] at h
    obtain ⟨⟨⟨⟨-, hcode⟩, -⟩, hdpl⟩, hrpl⟩ := h
    have hsel := sel_eq s
    have hidx : s.index.toNat = 3 := by
      obtain h1 | h2 | h3 | h4 | h5 : s.index.toNat = 1 ∨ s.index.toNat = 2 ∨ s.index.toNat = 3
        ∨ s.index.toNat = 4 ∨ s.index.toNat = 5 := by omega
      · rw [h1] at hget
        cases hget
        exact absurd hdpl (by decide)
      · rw [h2] at hget
        cases hget
        exact absurd hdpl (by decide)
      · exact h3
      · rw [h4] at hget
        cases hget
        exact absurd hcode (by decide)
      · rw [h5] at hget
        cases hget
        simp [Desc.isCode, isSegment_tssDesc] at hcode
    rw [hidx, hti, hrpl] at hsel
    exact BitVec.eq_of_toNat_eq hsel
  · cases h

/-- The only stack segment of level 3. -/
theorem stackOk_three {s : Sel} (h : (examGdt tss).stackOk 3 s = true) : s = d3Sel := by
  simp only [Gdt.stackOk] at h
  split at h
  · next d hd =>
    obtain ⟨hti, hlo, hhi, hget⟩ := lookup_examGdt tss hd
    simp only [Bool.and_eq_true, beq_iff_eq] at h
    obtain ⟨⟨⟨-, hwr⟩, hdpl⟩, hrpl⟩ := h
    have hsel := sel_eq s
    have hidx : s.index.toNat = 4 := by
      obtain h1 | h2 | h3 | h4 | h5 : s.index.toNat = 1 ∨ s.index.toNat = 2 ∨ s.index.toNat = 3
        ∨ s.index.toNat = 4 ∨ s.index.toNat = 5 := by omega
      · rw [h1] at hget
        cases hget
        exact absurd hdpl (by decide)
      · rw [h2] at hget
        cases hget
        exact absurd hdpl (by decide)
      · rw [h3] at hget
        cases hget
        exact absurd hwr (by decide)
      · exact h4
      · rw [h5] at hget
        cases hget
        simp [Desc.writable, Desc.isData, isSegment_tssDesc] at hwr
    rw [hidx, hti, hrpl] at hsel
    exact BitVec.eq_of_toNat_eq hsel
  · cases h

end Segments

/-! ## Gates -/

/-- An interrupt gate to code at level 0 that leads to `a` and that level `pl` may
call. -/
structure GateTo (g : Desc) (a : Word) (pl : BitVec 2) : Prop where
  present : g.present = true
  type : g.type = segDescSysIntrGate32
  selector : g.gateSelector = c0Sel
  offset : g.gateOffset = a
  dpl : g.dpl = pl

theorem GateTo.buildIntDesc (a : Word) : GateTo (buildIntDesc (gdtKrnSegSel 1) a) a 0 where
  present := present_buildIntDesc _ _
  type := type_buildIntDesc _ _
  selector := gateSelector_buildIntDesc _ _
  offset := gateOffset_buildIntDesc _ _
  dpl := dpl_buildIntDesc _ _

/-- The low and the high half of an offset make up the offset. -/
theorem append_field (a : Word) : field a 16 16 ++ field a 0 16 = a := by
  apply BitVec.eq_of_getLsbD_eq
  intro i hi
  rw [BitVec.getLsbD_append, getLsbD_field, getLsbD_field]
  by_cases h : i < 16
  · simp [h]
  · have h16 : i - 16 < 16 := by omega
    have hadd : 16 + (i - 16) = i := by omega
    simp [h, h16, hadd]

theorem GateTo.patchGate {g : Desc} {a : Word} {pl : BitVec 2} (h : GateTo g a pl) (isr : Word) :
    GateTo (patchGate isr g) isr 3 where
  present := by
    simp only [Desc.present, SecOS.patchGate]
    repeat rw [getLsbD_setField_disjoint _ _ (by omega) (by omega)]
    exact h.present
  type := by
    simp only [Desc.type, SecOS.patchGate]
    repeat rw [field_setField_disjoint _ _ (by omega) (by omega)]
    exact h.type
  selector := by
    simp only [Desc.gateSelector, SecOS.patchGate]
    repeat rw [field_setField_disjoint _ _ (by omega) (by omega)]
    exact h.selector
  offset := by
    simp only [Desc.gateOffset, SecOS.patchGate]
    rw [field_setField_disjoint _ _ (by omega) (by omega), field_setField _ _ _ (by omega),
      field_setField_disjoint _ _ (by omega) (by omega),
      field_setField_disjoint _ _ (by omega) (by omega), field_setField _ _ _ (by omega),
      append_field]
  dpl := by
    simp only [Desc.dpl, SecOS.patchGate]
    exact field_setField _ _ _ (by omega)

/-- The gate table once `config_interrupt` has run. -/
def examIdt (img : Image) : List Desc :=
  ((intrInit img.idtTrampoline).modify clockVector
    (patchGate (img.addr ⟨.clockInterruptIsr, 0⟩))).modify syscallVector
    (patchGate (img.addr ⟨.syscallIsr, 0⟩))

/-- Where the handler of a vector begins. -/
def gateBlock (v : Fin 256) : Block :=
  if v.val = clockVector then .clockInterruptIsr
  else if v.val = syscallVector then .syscallIsr
  else .stub v

/-- The level that may call a vector. -/
def gateLevel (v : Fin 256) : BitVec 2 :=
  if v.val = clockVector ∨ v.val = syscallVector then 3 else 0

/-- Every gate leads where it should, and those of the clock and of the system call
may be called at level 3. -/
theorem gate_examIdt (img : Image) (v : Fin 256) :
    ∃ g, (examIdt img)[v.val]? = some g ∧ GateTo g (img.addr ⟨gateBlock v, 0⟩) (gateLevel v) := by
  have hinit := getElem?_intrInit img.idtTrampoline v.isLt
  have hstub := GateTo.buildIntDesc (img.addr ⟨.stub v, 0⟩)
  rw [← img.addr_stub_eq v] at hinit
  rw [examIdt, List.getElem?_modify, List.getElem?_modify, hinit]
  by_cases hc : v.val = clockVector
  · simp only [gateBlock, gateLevel, hc, if_true, true_or]
    exact ⟨_, rfl, hstub.patchGate _⟩
  · by_cases hs : v.val = syscallVector
    · simp only [gateBlock, gateLevel, hs, if_true, or_true]
      exact ⟨_, rfl, hstub.patchGate _⟩
    · simp only [gateBlock, gateLevel, hc, hs, Ne.symm hc, Ne.symm hs, if_false, or_self]
      exact ⟨_, rfl, hstub⟩

end SecOS
