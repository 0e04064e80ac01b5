-- SUMMARY: A processor without paging whose descriptor tables and task state segment are in the memory that it runs programs in.
import SecOS.X86.Cpu

/-!
# Flat machine

Segments cover the whole address space and paging is off, so nothing keeps a program from
the tables that the processor itself reads. What it finds there is decided at each access.
-/

namespace X86

/-- How a byte lies in a range that begins `d` bytes below `a`. -/
theorem within_sub_iff {a b : Word} {d n : Nat} :
    Within (a - BitVec.ofNat 32 d) n b ↔ ((b - a).toNat + d) % 2 ^ 32 < n := by
  have hsub : b - (a - BitVec.ofNat 32 d) = b - a + BitVec.ofNat 32 d := by
    rw [sub_sub_eq_add_sub, add_sub_right_comm]
  rw [Within, hsub, BitVec.toNat_add, BitVec.toNat_ofNat, Nat.add_mod_mod]

/-- Two ranges are apart when each ends, going up and around, before the other begins. -/
theorem Within.not_within {a c b : Word} {m n : Nat} (h : Within a m b)
    (hup : m ≤ (c - a).toNat) (haround : n ≤ (a - c).toNat) : ¬ Within c n b := by
  simp only [Within] at *
  bv_omega

/-! ## Descriptors in memory -/

namespace Mem

def read16 (m : Mem) (a : Word) : BitVec 16 := m (a + 1) ++ m a

def write16 (m : Mem) (a : Word) (w : BitVec 16) : Mem := m.blit a 2 fun k => field w (8 * k) 8

def write64 (m : Mem) (a : Word) (d : BitVec 64) : Mem :=
  (m.write32 a (field d 0 32)).write32 (a + 4) (field d 32 32)

variable {m m' : Mem} {a b : Word} {d : BitVec 64}

@[simp] theorem read16_write16 (m : Mem) (a : Word) (w : BitVec 16) :
    (m.write16 a w).read16 a = w := by
  have h0 : m.write16 a w a = field w 0 8 := by
    refine (Mem.blit_within (by simp [Within])).trans ?_
    rw [BitVec.sub_self]
    rfl
  have h1 : m.write16 a w (a + 1) = field w 8 8 := by
    have hidx : (a + 1 - a).toNat = 1 := by bv_omega
    refine (Mem.blit_within (by simp only [Within, hidx]; decide)).trans ?_
    rw [hidx]
  have hall : field w 8 8 ++ field w 0 8 = field w 0 16 :=
    BitVec.extractLsb'_append_extractLsb'_eq_extractLsb' rfl
  unfold read16
  rw [h0, h1, hall]
  exact BitVec.extractLsb'_eq_self

theorem read16_congr (h : ∀ b, Within a 2 b → m' b = m b) : m'.read16 a = m.read16 a := by
  unfold read16
  rw [h a (by simp [Within]), h (a + 1) (by simp only [Within]; bv_omega)]

theorem write16_not_within {w : BitVec 16} (h : ¬ Within a 2 b) : m.write16 a w b = m b :=
  blit_not_within h

theorem read64_write64 (m : Mem) (a : Word) (d : BitVec 64) : (m.write64 a d).read64 a = d := by
  have hlow : (m.write64 a d).read32 a = field d 0 32 := by
    unfold write64
    rw [read32_write32_of_disjoint (by bv_omega) (by bv_omega), read32_write32]
  have hhigh : (m.write64 a d).read32 (a + 4) = field d 32 32 := read32_write32 ..
  have hall : field d 32 32 ++ field d 0 32 = field d 0 64 :=
    BitVec.extractLsb'_append_extractLsb'_eq_extractLsb' rfl
  unfold read64
  rw [hlow, hhigh, hall]
  exact BitVec.extractLsb'_eq_self

theorem write64_not_within (h : ¬ Within a 8 b) : m.write64 a d b = m b := by
  unfold write64
  rw [write32_not_within (by simp only [Within] at *; bv_omega),
    write32_not_within (by simp only [Within] at *; bv_omega)]

theorem read64_congr (h : ∀ b, Within a 8 b → m' b = m b) : m'.read64 a = m.read64 a := by
  unfold read64
  rw [read32_congr fun b hb => h b (by simp only [Within] at *; bv_omega),
    read32_congr fun b hb => h b (by simp only [Within] at *; bv_omega)]

theorem read64_write64_of_disjoint (h : 8 ≤ (a - b).toNat) (h' : 8 ≤ (b - a).toNat) :
    (m.write64 a d).read64 b = m.read64 b := by
  refine read64_congr fun c hc => write64_not_within ?_
  simp only [Within] at *
  bv_omega

end Mem

/-- Where descriptor `i` of a table is. -/
def descAddr (base : Word) (i : Nat) : Word := base + BitVec.ofNat 32 (8 * i)

/-- A descriptor table register. -/
structure TableReg where
  base : Word
  limit : BitVec 16
  deriving DecidableEq

/-- The descriptors of which every byte is within the limit. -/
def TableReg.table (r : TableReg) (m : Mem) : List Desc :=
  (List.range ((r.limit.toNat + 1) / 8)).map fun i => m.read64 (descAddr r.base i)

section Tables

variable {m m' : Mem} {base : Word} {r : TableReg} {n i j : Nat} {d : Desc} {b : Word}

theorem table_eq (m : Mem) (hn : r.limit.toNat + 1 = 8 * n) :
    r.table m = (List.range n).map fun i => m.read64 (descAddr r.base i) := by
  have hdiv : (r.limit.toNat + 1) / 8 = n := by omega
  rw [TableReg.table, hdiv]

theorem getElem?_table (m : Mem) (hi : 8 * i + 7 ≤ r.limit.toNat) :
    (r.table m)[i]? = some (m.read64 (descAddr r.base i)) := by
  unfold TableReg.table
  rw [List.getElem?_map, List.getElem?_range (by omega), Option.map_some]

theorem within_of_descAddr (hn : 8 * n ≤ 2 ^ 32) (hi : i < n) (h : Within (descAddr base i) 8 b) :
    Within base (8 * n) b := by
  unfold descAddr at h
  simp only [Within] at *
  bv_omega

/-- A table depends on its own bytes. -/
theorem table_congr (h : ∀ b, Within r.base (r.limit.toNat + 1) b → m' b = m b) :
    r.table m' = r.table m := by
  have hlimit := r.limit.isLt
  refine List.map_congr_left fun i hi => Mem.read64_congr fun b hb => h b ?_
  have hin := within_of_descAddr (n := (r.limit.toNat + 1) / 8) (by omega)
    (List.mem_range.mp hi) hb
  simp only [Within] at *
  omega

/-- Storing one descriptor leaves every other one as it was. -/
theorem read64_descAddr_write64 (hi : 8 * i + 8 ≤ 2 ^ 16) (hj : 8 * j + 8 ≤ 2 ^ 16) :
    (m.write64 (descAddr base i) d).read64 (descAddr base j)
      = if j = i then d else m.read64 (descAddr base j) := by
  split
  · next h => rw [h, Mem.read64_write64]
  · next h =>
    unfold descAddr
    refine Mem.read64_write64_of_disjoint ?_ ?_ <;> bv_omega

/-- So it changes one entry of the table. -/
theorem table_write64 (hi : 8 * i + 8 ≤ 2 ^ 16) :
    r.table (m.write64 (descAddr r.base i) d) = (r.table m).set i d := by
  have hlimit := r.limit.isLt
  refine List.ext_getElem ?_ fun j hj hj' => ?_
  · simp only [TableReg.table, List.length_map, List.length_set]
  · have hlen : j < (r.limit.toNat + 1) / 8 := by
      simpa only [TableReg.table, List.length_map, List.length_range] using hj
    rw [List.getElem_set]
    simp only [TableReg.table, List.getElem_map, List.getElem_range]
    rw [read64_descAddr_write64 hi (by omega)]
    simp only [eq_comm]

/-- Descriptors stored one after another, from entry `i` on. -/
def storeDescs (base : Word) : Mem → Nat → List Desc → Mem
  | m, _, [] => m
  | m, i, d :: ds => storeDescs base (m.write64 (descAddr base i) d) (i + 1) ds

theorem length_table (r : TableReg) (m : Mem) : (r.table m).length = (r.limit.toNat + 1) / 8 := by
  rw [TableReg.table, List.length_map, List.length_range]

/-- They are the end of the table. -/
theorem table_storeDescs {ds : List Desc} (h : r.limit.toNat + 1 = 8 * (i + ds.length)) :
    r.table (storeDescs r.base m i ds) = (r.table m).take i ++ ds := by
  have hlimit := r.limit.isLt
  induction ds generalizing m i with
  | nil =>
    rw [List.length_nil] at h
    rw [storeDescs, List.append_nil, List.take_of_length_le]
    rw [length_table]
    omega
  | cons d ds ih =>
    rw [List.length_cons] at h
    have hlen : i < (r.table m).length := by
      rw [length_table]
      omega
    rw [storeDescs, ih (by omega), table_write64 (by omega),
      List.take_succ_eq_append_getElem (by rwa [List.length_set]), List.getElem_set_self,
      List.take_set_of_le le_rfl, List.append_assoc]
    rfl

end Tables

/-- A segment that a level could load is left to it when the processor returns there. -/
theorem outerData_of_dataOk {g : Gdt} {pl : BitVec 2} {sel : Sel} (h : g.dataOk pl sel = true) :
    g.outerData pl sel = sel := by
  unfold Gdt.outerData
  cases hd : g.lookup sel with
  | none => rfl
  | some d =>
    have hnull : sel.isNull = false := by
      unfold Gdt.lookup at hd
      by_contra hn
      rw [Bool.not_eq_false] at hn
      rw [hn, Bool.true_or, if_pos rfl] at hd
      cases hd
    unfold Gdt.dataOk at h
    rw [hnull, hd] at h
    simp only [Bool.false_or, Bool.and_eq_true, Bool.or_eq_true] at h
    refine if_neg fun hout => ?_
    rw [Bool.and_eq_true, Bool.not_eq_true'] at hout
    obtain ⟨-, hconf | ⟨hle, -⟩⟩ := h
    · rw [Bool.and_eq_false_iff] at hout
      rcases hout.2 with hcode | hconforming
      · exact Bool.false_ne_true (hcode.symm.trans hconf.1)
      · exact Bool.false_ne_true (hconforming.symm.trans hconf.2)
    · have hlt := hout.1
      simp only [BitVec.ule, BitVec.ult, decide_eq_true_eq] at hle hlt
      omega

/-! ## The machine -/

structure Flat where
  cpu : Cpu
  mem : Mem
  gdtr : TableReg
  idtr : TableReg
  /-- Where the task state segment begins. -/
  tr : Word

namespace Flat

def gdt (s : Flat) : Gdt := s.gdtr.table s.mem

def idt (s : Flat) : List Desc := s.idtr.table s.mem

/-- The stack for level 0, as the task state segment has it. -/
def esp0 (s : Flat) : Word := s.mem.read32 (s.tr + 4)

def ss0 (s : Flat) : Sel := s.mem.read16 (s.tr + 8)

/-- Type of a 32-bit interrupt gate. -/
def intrGate : BitVec 4 := 0xe

/-- Type of a 32-bit task state segment, available or busy. -/
def tssAvail : BitVec 4 := 0x9
def tssBusy : BitVec 4 := 0xb

/-- Load the task register, which marks the descriptor as busy. -/
def ltr (s : Flat) (sel : Sel) : Option Flat := do
  let d ← s.gdt.lookup sel
  if !(d.present && !d.isSegment && d.type == tssAvail) then none else
  return { s with
    mem := s.mem.write64 (descAddr s.gdtr.base sel.index.toNat) (setField d 40 tssBusy)
    tr := d.base }

/-- The processor enters the handler of vector `v`. -/
def interrupt (s : Flat) (v : Nat) (err : Option Word) : Option Flat := do
  let g ← s.idt[v]?
  if !(g.present && g.type == intrGate && s.gdt.codeOk 0 (g.gateSelector &&& ~~~3)) then none else
  if s.cpu.cpl ≠ 0 ∧ !s.gdt.stackOk 0 s.ss0 then none else
  let (cpu, mem) := s.cpu.deliver s.mem s.esp0 s.ss0 g err
  return { s with cpu, mem }

/-- `int n`, an instruction of `len` bytes: through the gate when its level allows it, else
a general protection fault at the instruction. -/
def softInt (s : Flat) (n : Fin 256) (len : Word) : Option Flat := do
  let g ← s.idt[n.val]?
  if g.dpl.ult s.cpu.cpl then s.interrupt 13 (some (BitVec.ofNat 32 (8 * n + 2)))
  else interrupt { s with cpu := { s.cpu with eip := s.cpu.eip + len } } n none

/-- `mov %eax, %cr0` -/
def movCr0 (s : Flat) : Option Flat :=
  if s.cpu.cpl ≠ 0 then s.interrupt 13 (some 0)
  else some { s with cpu := { s.cpu with cr0 := s.cpu.eax, eip := s.cpu.eip + 3, shadow := false } }

def iret (s : Flat) : Option Flat := do
  let cpu ← s.cpu.iret s.gdt s.mem
  return { s with cpu }

/-- Bytes stored one after another. -/
def storeAll (m : Mem) (stores : List (Word × Byte)) : Mem :=
  stores.foldl (fun m w => m.blit w.1 1 fun _ => w.2) m

/-- An instruction at level 3 that touches no port and raises nothing: the registers become
those of `c`, as far as the level may change them, and bytes are stored anywhere. -/
def user (s : Flat) (c : Cpu) (stores : List (Word × Byte)) : Option Flat :=
  if s.cpu.cpl ≠ 3 then none else
  if !(s.gdt.codeOk 3 c.cs && s.gdt.stackOk 3 c.ss && s.gdt.dataOk 3 c.ds && s.gdt.dataOk 3 c.es
    && s.gdt.dataOk 3 c.fs && s.gdt.dataOk 3 c.gs) then none else
  some { s with
    mem := storeAll s.mem stores
    cpu := { c with
      eflags := Eflags.blend s.cpu.eflags c.eflags Eflags.user, shadow := false
      cr0 := s.cpu.cr0, cr2 := s.cpu.cr2, cr3 := s.cpu.cr3, cr4 := s.cpu.cr4 } }

variable {s : Flat} {g : Desc} {v : Nat} {err : Option Word}

/-- Entering through an interrupt gate whose code and stack can be loaded. -/
theorem interrupt_eq (hg : s.idt[v]? = some g) (hp : g.present = true) (ht : g.type = intrGate)
    (hcs : s.gdt.codeOk 0 (g.gateSelector &&& ~~~3) = true)
    (hss : s.cpu.cpl ≠ 0 → s.gdt.stackOk 0 s.ss0 = true) :
    s.interrupt v err = some { s with
      cpu := (s.cpu.deliver s.mem s.esp0 s.ss0 g err).1
      mem := (s.cpu.deliver s.mem s.esp0 s.ss0 g err).2 } := by
  have hstack : ¬ (s.cpu.cpl ≠ 0 ∧ (!s.gdt.stackOk 0 s.ss0) = true) := fun h => by
    rw [hss h.1] at h
    exact absurd h.2 (by decide)
  unfold interrupt
  simp only [hg, Option.bind_eq_bind, Option.bind_some, hp, ht, hcs, beq_self_eq_true,
    Bool.and_self, Bool.not_true, Bool.false_eq_true, if_false, if_neg hstack]
  rfl

/-- Without a change of level the frame goes below the stack pointer. -/
theorem interrupt_inner (hg : s.idt[v]? = some g) (hp : g.present = true) (ht : g.type = intrGate)
    (hcs : s.gdt.codeOk 0 (g.gateSelector &&& ~~~3) = true) (hcpl : s.cpu.cpl = 0) :
    s.interrupt v none = some { s with
      cpu := { s.cpu with
        esp := Mem.below s.cpu.esp 3, cs := g.gateSelector &&& ~~~3, eip := g.gateOffset
        eflags := s.cpu.eflags &&& ~~~Eflags.gateClear, shadow := false }
      mem := s.mem.pushWords s.cpu.esp [s.cpu.eflags, s.cpu.cs.setWidth 32, s.cpu.eip] } := by
  rw [interrupt_eq hg hp ht hcs fun h => absurd hcpl h]
  simp only [Cpu.deliver, Cpu.trapFrame, hcpl, if_true, Option.toList_none, List.nil_append,
    List.append_nil, List.length_cons, List.length_nil]

/-- A gate whose level allows it. -/
theorem softInt_eq {n : Fin 256} {len : Word} (hg : s.idt[n.val]? = some g)
    (hdpl : ¬ g.dpl.ult s.cpu.cpl = true) :
    s.softInt n len
      = interrupt { s with cpu := { s.cpu with eip := s.cpu.eip + len } } n.val none := by
  simp only [softInt, hg, Option.bind_eq_bind, Option.bind_some, if_neg hdpl]

theorem storeAll_of_forall_ne {m : Mem} {stores : List (Word × Byte)} {b : Word}
    (h : ∀ w ∈ stores, w.1 ≠ b) : storeAll m stores b = m b := by
  induction stores generalizing m with
  | nil => rfl
  | cons w stores ih =>
    have hw : w.1 ≠ b := h w List.mem_cons_self
    have hrest := ih (m := m.blit w.1 1 fun _ => w.2) fun w' hw' =>
      h w' (List.mem_cons_of_mem _ hw')
    refine Eq.trans hrest (Mem.blit_not_within ?_)
    simp only [Within]
    bv_omega

/-- A byte after the stores depends on that byte before them. -/
theorem storeAll_congr {m m' : Mem} (stores : List (Word × Byte)) {b : Word} (h : m' b = m b) :
    storeAll m' stores b = storeAll m stores b := by
  induction stores generalizing m m' with
  | nil => exact h
  | cons w stores ih =>
    change storeAll (m'.blit w.1 1 fun _ => w.2) stores b
      = storeAll (m.blit w.1 1 fun _ => w.2) stores b
    refine ih ?_
    by_cases hb : Within w.1 1 b
    · rw [Mem.blit_within hb, Mem.blit_within hb]
    · rw [Mem.blit_not_within hb, Mem.blit_not_within hb, h]

/-- The bytes of a word. -/
def wordStores (a w : Word) : List (Word × Byte) :=
  (List.range 4).map fun k => (a + BitVec.ofNat 32 k, Mem.byteOf w k)

theorem within_of_mem_wordStores {a w : Word} {x : Word × Byte} (h : x ∈ wordStores a w) :
    Within a 4 x.1 := by
  obtain ⟨k, hk, rfl⟩ := List.mem_map.mp h
  have hlt := List.mem_range.mp hk
  simp only [Within]
  bv_omega

/-- They are stored as the word is. -/
theorem storeAll_wordStores (m : Mem) (a w : Word) :
    storeAll m (wordStores a w) = m.write32 a w := by
  have ha : a + BitVec.ofNat 32 0 = a := BitVec.add_zero a
  rw [Mem.write32_eq_blit]
  simp only [wordStores, List.range_succ, List.range_zero, List.nil_append, List.map_append,
    List.map_cons, List.map_nil, storeAll, List.foldl_append, List.foldl_cons, List.foldl_nil, ha]
  rfl

end Flat

end X86
