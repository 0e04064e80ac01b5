-- SUMMARY: The page tables that `config_pgds` fills, entry by entry, and the address spaces they describe.
import SecOS.X86.Tables
import SecOS.Kernel.Pagemem
import SecOS.Kernel.String
import Mathlib.Tactic.IntervalCases

/-!
# Page directories of the exam kernel

Ten tables stand one after another from `0x350000` on: a directory and a table for
the kernel, a directory and three tables for each task. `configPgds` fills them;
`TablesOk` says what every one of their entries is; the walks follow from it.
-/

namespace SecOS

open X86

/-! ## The code -/

def pgd : Word := 0x350000
def pgdPtb : Word := 0x351000
def pgdTask1 : Word := 0x352000
def pgdTask1Ptb0 : Word := 0x353000
def pgdTask1Ptb1 : Word := 0x354000
def pgdTask1Ptb2 : Word := 0x355000
def pgdTask2 : Word := 0x356000
def pgdTask2Ptb0 : Word := 0x357000
def pgdTask2Ptb1 : Word := 0x358000
def pgdTask2Ptb2 : Word := 0x359000

/-- The tables in the order they are cleared, which is the order of their addresses. -/
def tables : List Word :=
  [pgd, pgdPtb, pgdTask1, pgdTask1Ptb0, pgdTask1Ptb1, pgdTask1Ptb2, pgdTask2, pgdTask2Ptb0,
    pgdTask2Ptb1, pgdTask2Ptb2]

def clearTables (m : Mem) (flags : Word) : Mem × Word :=
  tables.foldl (fun p t => (memset p.1 p.2 t 0 pageSize).2) (m, flags)

/-- The body of the loop over the entries. -/
def configPgdsBody (m : Mem) (i : Nat) : Mem :=
  let n := BitVec.ofNat 32 i
  let m := pgSetEntry m (entryAddr pgdPtb i) (pgKrn ||| pgRw) n
  let m := pgSetEntry m (entryAddr pgdTask1Ptb0 i) (pgKrn ||| pgRw) n
  let m := pgSetEntry m (entryAddr pgdTask2Ptb0 i) (pgKrn ||| pgRw) n
  let m := pgSetEntry m (entryAddr pgdTask1Ptb1 i) (pgUsr ||| pgRw) (1024 + n)
  pgSetEntry m (entryAddr pgdTask2Ptb1 i) (pgUsr ||| pgRw) (2 * 1024 + n)

/-- The first `n` iterations. -/
def configPgdsLoop (m : Mem) : Nat → Mem
  | 0 => m
  | n + 1 => configPgdsBody (configPgdsLoop m n) n

/-- The entries set after the loop: the shared page, then the directories. -/
def configPgdsTail (m : Mem) : Mem :=
  let m := pgSetEntry m (entryAddr pgdTask1Ptb2 0) (pgUsr ||| pgRw) (0xe00000 >>> 12)
  let m := pgSetEntry m (entryAddr pgdTask2Ptb2 0) (pgUsr ||| pgRw) (0xe00000 >>> 12)
  let m := pgSetEntry m (entryAddr pgd 0) (pgKrn ||| pgRw) (pageGetNr pgdPtb)
  let m := pgSetEntry m (entryAddr pgdTask1 0) (pgKrn ||| pgRw) (pageGetNr pgdTask1Ptb0)
  let m := pgSetEntry m (entryAddr pgdTask2 0) (pgKrn ||| pgRw) (pageGetNr pgdTask2Ptb0)
  let m := pgSetEntry m (entryAddr pgdTask1 1) (pgUsr ||| pgRw) (pageGetNr pgdTask1Ptb1)
  let m := pgSetEntry m (entryAddr pgdTask2 2) (pgUsr ||| pgRw) (pageGetNr pgdTask2Ptb1)
  let m := pgSetEntry m (entryAddr pgdTask2 1) (pgUsr ||| pgRw) (pageGetNr pgdTask2Ptb2)
  pgSetEntry m (entryAddr pgdTask1 2) (pgUsr ||| pgRw) (pageGetNr pgdTask1Ptb2)

/-- What `config_pgds` does to memory before it turns paging on. -/
def configPgdsTables (m : Mem) (flags : Word) : Mem :=
  configPgdsTail (configPgdsLoop (clearTables m flags).1 1024)

/-! ## The entries -/

def tablesBase : Word := 0x350000
/-- Ten pages. -/
def tablesSize : Nat := 0xa000

/-- Entry `i` of table `k`. -/
def slot (k i : Nat) : Word := entryAddr (tablesBase + BitVec.ofNat 32 (0x1000 * k)) i

def krnEntry (pfn : Word) : PageEntry := pgEntry (pgKrn ||| pgRw) pfn
def usrEntry (pfn : Word) : PageEntry := pgEntry (pgUsr ||| pgRw) pfn

/-- What the loop leaves in entry `i` of table `k`. -/
def loopEntry (k i : Nat) : PageEntry :=
  match k with
  | 1 | 3 | 7 => krnEntry (BitVec.ofNat 32 i)
  | 4 => usrEntry (1024 + BitVec.ofNat 32 i)
  | 8 => usrEntry (2 * 1024 + BitVec.ofNat 32 i)
  | _ => 0

/-- What `config_pgds` leaves in entry `i` of table `k`. -/
def tableEntry (k i : Nat) : PageEntry :=
  match k, i with
  | 0, 0 => krnEntry (pageGetNr pgdPtb)
  | 2, 0 => krnEntry (pageGetNr pgdTask1Ptb0)
  | 2, 1 => usrEntry (pageGetNr pgdTask1Ptb1)
  | 2, 2 => usrEntry (pageGetNr pgdTask1Ptb2)
  | 5, 0 => usrEntry 0xe00
  | 6, 0 => krnEntry (pageGetNr pgdTask2Ptb0)
  | 6, 1 => usrEntry (pageGetNr pgdTask2Ptb2)
  | 6, 2 => usrEntry (pageGetNr pgdTask2Ptb1)
  | 9, 0 => usrEntry 0xe00
  | k, i => loopEntry k i

/-- Every entry of every table is the one `config_pgds` left there. -/
def TablesOk (m : Mem) : Prop :=
  ∀ k < 10, ∀ i < 1024, m.read32 (slot k i) = tableEntry k i

section Slots

variable {m m' : Mem} {k k' i i' : Nat}

theorem tablesBase_room : tablesBase.toNat + 0x1000 * 10 ≤ 2 ^ 32 := by decide

theorem toNat_slot (hk : k < 10) (hi : i < 1024) :
    (slot k i).toNat = 0x350000 + 0x1000 * k + 4 * i := toNat_slotAt tablesBase_room hk hi

/-- Writing one entry leaves every other one as it was. -/
theorem read32_slot_write32 (hk : k < 10) (hi : i < 1024) (hk' : k' < 10) (hi' : i' < 1024)
    (w : Word) :
    (m.write32 (slot k i) w).read32 (slot k' i')
      = if k' = k ∧ i' = i then w else m.read32 (slot k' i') :=
  read32_slotAt_write32 tablesBase_room hk hi hk' hi' w

/-- An entry depends on the bytes of the tables only. -/
theorem read32_slot_congr (hk : k < 10) (hi : i < 1024)
    (h : ∀ b, Within tablesBase tablesSize b → m' b = m b) :
    m'.read32 (slot k i) = m.read32 (slot k i) := by
  have hs := toNat_slot hk hi
  refine Mem.read32_congr fun b hb => h b ?_
  simp only [Within, tablesBase, tablesSize] at *
  bv_omega

theorem TablesOk.congr (h : TablesOk m)
    (hm : ∀ b, Within tablesBase tablesSize b → m' b = m b) : TablesOk m' := by
  intro k hk i hi
  rw [read32_slot_congr hk hi hm, h k hk i hi]

end Slots

/-! ## config_pgds fills the tables -/

section Config

theorem memset_table (m : Mem) (flags t : Word) :
    (memset m flags t 0 pageSize).2 = (fun b => if Within t 0x1000 b then 0 else m b, flags) :=
  congrArg Prod.snd (memset_eq m flags t 0 pageSize)

theorem clearTables_apply (m : Mem) (flags b : Word) (h : Within tablesBase tablesSize b) :
    (clearTables m flags).1 b = 0 := by
  simp only [clearTables, tables, List.foldl_cons, List.foldl_nil, memset_table]
  repeat' split
  all_goals first
    | rfl
    | (exfalso
       simp only [Within, tablesBase, tablesSize, pgd, pgdPtb, pgdTask1, pgdTask1Ptb0, pgdTask1Ptb1,
         pgdTask1Ptb2, pgdTask2, pgdTask2Ptb0, pgdTask2Ptb1, pgdTask2Ptb2] at *
       bv_omega)

theorem clearTables_slot (m : Mem) (flags : Word) {k i : Nat} (hk : k < 10) (hi : i < 1024) :
    (clearTables m flags).1.read32 (slot k i) = 0 := by
  have hzero : Mem.read32 (fun _ => 0) (slot k i) = 0 := by simp [Mem.read32]
  rw [← hzero]
  exact read32_slot_congr hk hi fun b hb => clearTables_apply m flags b hb

theorem clearTables_outside (m : Mem) (flags b : Word) (h : ¬ Within tablesBase tablesSize b) :
    (clearTables m flags).1 b = m b := by
  have hout (t : Word) (ht : t ∈ tables) : ¬ Within t 0x1000 b := by
    simp only [tables, List.mem_cons, List.not_mem_nil, or_false] at ht
    simp only [Within, tablesBase, tablesSize, pgd, pgdPtb, pgdTask1, pgdTask1Ptb0, pgdTask1Ptb1,
      pgdTask1Ptb2, pgdTask2, pgdTask2Ptb0, pgdTask2Ptb1, pgdTask2Ptb2] at *
    bv_omega
  simp only [clearTables]
  generalize tables = ts at hout
  induction ts generalizing m with
  | nil => rfl
  | cons t ts ih =>
    rw [List.foldl_cons, memset_table, ih _ fun t' ht' => hout t' (List.mem_cons_of_mem _ ht')]
    exact if_neg (hout t (List.mem_cons_self ..))

theorem write32_slot_outside (m : Mem) {k i : Nat} (hk : k < 10) (hi : i < 1024) (w : Word)
    {b : Word} (h : ¬ Within tablesBase tablesSize b) : m.write32 (slot k i) w b = m b := by
  have hs := toNat_slot hk hi
  refine Mem.write32_not_within fun hin => h ?_
  simp only [Within, tablesBase, tablesSize] at *
  bv_omega

/-- One iteration sets entry `n` of five tables. -/
theorem configPgdsBody_slot (m : Mem) {n k i : Nat} (hn : n < 1024) (hk : k < 10)
    (hi : i < 1024) :
    (configPgdsBody m n).read32 (slot k i)
      = if i = n ∧ k ∈ [1, 3, 4, 7, 8] then loopEntry k i else m.read32 (slot k i) := by
  have h1 : entryAddr pgdPtb n = slot 1 n := rfl
  have h3 : entryAddr pgdTask1Ptb0 n = slot 3 n := rfl
  have h4 : entryAddr pgdTask1Ptb1 n = slot 4 n := rfl
  have h7 : entryAddr pgdTask2Ptb0 n = slot 7 n := rfl
  have h8 : entryAddr pgdTask2Ptb1 n = slot 8 n := rfl
  simp only [configPgdsBody, pgSetEntry_eq, h1, h3, h4, h7, h8]
  repeat rw [read32_slot_write32 (by omega) hn hk hi]
  by_cases hin : i = n
  · subst hin
    interval_cases k <;> simp [loopEntry, krnEntry, usrEntry]
  · simp [hin]

theorem configPgdsLoop_slot (m : Mem) {n k i : Nat} (hn : n ≤ 1024) (hk : k < 10)
    (hi : i < 1024) :
    (configPgdsLoop m n).read32 (slot k i)
      = if i < n ∧ k ∈ [1, 3, 4, 7, 8] then loopEntry k i else m.read32 (slot k i) := by
  induction n with
  | zero => simp [configPgdsLoop]
  | succ n ih =>
    rw [configPgdsLoop, configPgdsBody_slot _ (by omega) hk hi, ih (by omega)]
    by_cases hmem : k ∈ [1, 3, 4, 7, 8]
    · simp only [hmem, and_true]
      by_cases hin : i = n
      · rw [if_pos hin, if_pos (by omega)]
      · rw [if_neg hin]
        exact if_congr (by omega) rfl rfl
    · simp only [hmem, and_false, if_false]

/-- `config_pgds` leaves the tables as described, whatever memory held before. -/
theorem tablesOk_configPgdsTables (m : Mem) (flags : Word) :
    TablesOk (configPgdsTables m flags) := by
  intro k hk i hi
  have hloop := configPgdsLoop_slot (clearTables m flags).1 (n := 1024) (by omega) hk hi
  rw [clearTables_slot m flags hk hi] at hloop
  have h00 : entryAddr pgd 0 = slot 0 0 := rfl
  have h20 : entryAddr pgdTask1 0 = slot 2 0 := rfl
  have h21 : entryAddr pgdTask1 1 = slot 2 1 := rfl
  have h22 : entryAddr pgdTask1 2 = slot 2 2 := rfl
  have h50 : entryAddr pgdTask1Ptb2 0 = slot 5 0 := rfl
  have h60 : entryAddr pgdTask2 0 = slot 6 0 := rfl
  have h61 : entryAddr pgdTask2 1 = slot 6 1 := rfl
  have h62 : entryAddr pgdTask2 2 = slot 6 2 := rfl
  have h90 : entryAddr pgdTask2Ptb2 0 = slot 9 0 := rfl
  simp only [configPgdsTables, configPgdsTail, pgSetEntry_eq, h00, h20, h21, h22, h50, h60, h61,
    h62, h90]
  repeat rw [read32_slot_write32 (by omega) (by omega) hk hi]
  rw [hloop]
  simp only [hi, true_and]
  clear hloop
  interval_cases k
  all_goals
    by_cases h0 : i = 0
    · subst h0; rfl
    by_cases h1 : i = 1
    · subst h1; rfl
    by_cases h2 : i = 2
    · subst h2; rfl
    simp [h0, h1, h2, tableEntry, loopEntry]

theorem configPgdsLoop_outside (m : Mem) {n : Nat} (hn : n ≤ 1024) {b : Word}
    (h : ¬ Within tablesBase tablesSize b) : configPgdsLoop m n b = m b := by
  induction n with
  | zero => rfl
  | succ n ih =>
    have h1 : entryAddr pgdPtb n = slot 1 n := rfl
    have h3 : entryAddr pgdTask1Ptb0 n = slot 3 n := rfl
    have h4 : entryAddr pgdTask1Ptb1 n = slot 4 n := rfl
    have h7 : entryAddr pgdTask2Ptb0 n = slot 7 n := rfl
    have h8 : entryAddr pgdTask2Ptb1 n = slot 8 n := rfl
    simp only [configPgdsLoop, configPgdsBody, pgSetEntry_eq, h1, h3, h4, h7, h8]
    repeat rw [write32_slot_outside _ (by omega) (by omega) _ h]
    exact ih (by omega)

/-- `config_pgds` writes to the tables only. -/
theorem configPgdsTables_outside (m : Mem) (flags : Word) {b : Word}
    (h : ¬ Within tablesBase tablesSize b) : configPgdsTables m flags b = m b := by
  have h00 : entryAddr pgd 0 = slot 0 0 := rfl
  have h20 : entryAddr pgdTask1 0 = slot 2 0 := rfl
  have h21 : entryAddr pgdTask1 1 = slot 2 1 := rfl
  have h22 : entryAddr pgdTask1 2 = slot 2 2 := rfl
  have h50 : entryAddr pgdTask1Ptb2 0 = slot 5 0 := rfl
  have h60 : entryAddr pgdTask2 0 = slot 6 0 := rfl
  have h61 : entryAddr pgdTask2 1 = slot 6 1 := rfl
  have h62 : entryAddr pgdTask2 2 = slot 6 2 := rfl
  have h90 : entryAddr pgdTask2Ptb2 0 = slot 9 0 := rfl
  simp only [configPgdsTables, configPgdsTail, pgSetEntry_eq, h00, h20, h21, h22, h50, h60, h61,
    h62, h90]
  repeat rw [write32_slot_outside _ (by omega) (by omega) _ h]
  rw [configPgdsLoop_outside _ le_rfl h, clearTables_outside m flags b h]

end Config

/-! ## Address spaces -/

/-- End of the kernel's part of every address space. -/
def kernelEnd : Nat := 0x400000

/-- The directory of task `i`. -/
def pgdOf : Fin 2 → Word
  | 0 => pgdTask1
  | 1 => pgdTask2

/-- What a task sees of memory: four megabytes of its own, where they are, and the
shared page, where the other task's begin. -/
def userMap : Fin 2 → Word → Option Word
  | 0, va =>
    if 0x400000 ≤ va.toNat ∧ va.toNat < 0x800000 then some va
    else if 0x800000 ≤ va.toNat ∧ va.toNat < 0x801000 then some (va - 0x800000 + 0xe00000)
    else none
  | 1, va =>
    if 0x800000 ≤ va.toNat ∧ va.toNat < 0xc00000 then some va
    else if 0x400000 ≤ va.toNat ∧ va.toNat < 0x401000 then some (va - 0x400000 + 0xe00000)
    else none

section Walks

variable {m : Mem} {va : Word}

/-- Table `kt` as a directory entry names it. -/
theorem frame_table {kt : Nat} (hkt : kt < 10) :
    BitVec.ofNat 32 ((0x350 + BitVec.ofNat 32 kt : Word).toNat % 2 ^ 20 * 2 ^ 12)
      = tablesBase + BitVec.ofNat 32 (0x1000 * kt) := by
  interval_cases kt <;> rfl

/-- Through directory `kd` and table `kt`, when the entries met there are as given. -/
theorem walk_of_entries (h : TablesOk m) {kd kt : Nat} {attr attr' pfn' : Word}
    (hkd : kd < 10) (hkt : kt < 10)
    (hpde : tableEntry kd (pdIndex va) = pgEntry attr (0x350 + BitVec.ofNat 32 kt))
    (hpte : tableEntry kt (ptIndex va) = pgEntry attr' pfn') :
    walk m (tablesBase + BitVec.ofNat 32 (0x1000 * kd)) va = some
      { pa := BitVec.ofNat 32 (pfn'.toNat % 2 ^ 20 * 2 ^ 12 + pageOffset va)
        user := attr.getLsbD 2 && attr'.getLsbD 2
        rw := attr.getLsbD 1 && attr'.getLsbD 1 } := by
  refine walk_pgEntry ((h kd hkd _ (pdIndex_lt va)).trans hpde) ?_
  rw [frame_table hkt]
  exact (h kt hkt _ (ptIndex_lt va)).trans hpte

theorem walk_none_of_pde (h : TablesOk m) {kd : Nat} (hkd : kd < 10)
    (hpde : tableEntry kd (pdIndex va) = 0) :
    walk m (tablesBase + BitVec.ofNat 32 (0x1000 * kd)) va = none :=
  walk_eq_none (by rw [← slot, h kd hkd _ (pdIndex_lt va), hpde]; rfl)

theorem walk_none_of_pte (h : TablesOk m) {kd kt : Nat} {attr : Word} (hkd : kd < 10)
    (hkt : kt < 10) (hpde : tableEntry kd (pdIndex va) = pgEntry attr (0x350 + BitVec.ofNat 32 kt))
    (hpte : tableEntry kt (ptIndex va) = 0) :
    walk m (tablesBase + BitVec.ofNat 32 (0x1000 * kd)) va = none := by
  refine walk_pgEntry_zero ((h kd hkd _ (pdIndex_lt va)).trans hpde) ?_
  rw [frame_table hkt]
  exact (h kt hkt _ (ptIndex_lt va)).trans hpte

/-- Four megabytes mapped by a whole table whose entry `i` points to page `lo + i`. -/
theorem walk_block (h : TablesOk m) (kd kt : Nat) (attr : Word) {lo : Word} (hkd : kd < 10)
    (hkt : kt < 10)
    (hpde : tableEntry kd (pdIndex va) = pgEntry attr (0x350 + BitVec.ofNat 32 kt))
    (hpte : tableEntry kt (ptIndex va) = pgEntry attr (lo + BitVec.ofNat 32 (ptIndex va)))
    (hva : va.toNat / 2 ^ 22 * 2 ^ 10 = lo.toNat) :
    walk m (tablesBase + BitVec.ofNat 32 (0x1000 * kd)) va
      = some { pa := va, user := attr.getLsbD 2, rw := attr.getLsbD 1 } := by
  rw [walk_of_entries h hkd hkt hpde hpte, Bool.and_self, Bool.and_self]
  have hidx := toNat_eq_indices va
  have hpt := ptIndex_lt va
  have hpfn : (lo + BitVec.ofNat 32 (ptIndex va)).toNat = lo.toNat + ptIndex va := by
    simp; omega
  have hpa : BitVec.ofNat 32 ((lo.toNat + ptIndex va) % 2 ^ 20 * 2 ^ 12 + pageOffset va) = va := by
    apply BitVec.eq_of_toNat_eq
    have := va.isLt
    simp only [pdIndex] at hidx
    rw [BitVec.toNat_ofNat]
    omega
  rw [hpfn, hpa]

/-- Every directory maps the kernel's part to itself, for level 0 only. -/
theorem walk_kernel (h : TablesOk m) (hva : va.toNat < kernelEnd) {dir : Word}
    (hdir : dir ∈ [pgd, pgdTask1, pgdTask2]) :
    walk m dir va = some { pa := va, user := false, rw := true } := by
  have hpd : pdIndex va = 0 := by simp only [pdIndex, kernelEnd] at *; omega
  have hblock : va.toNat / 2 ^ 22 * 2 ^ 10 = (0 : Word).toNat := by
    rw [show va.toNat / 2 ^ 22 = 0 from hpd]; rfl
  simp only [List.mem_cons, List.not_mem_nil, or_false] at hdir
  obtain rfl | rfl | rfl := hdir
  · exact walk_block h 0 1 (pgKrn ||| pgRw) (by omega) (by omega)
      (by rw [hpd]; rfl) (by simp [tableEntry, loopEntry, krnEntry]) hblock
  · exact walk_block h 2 3 (pgKrn ||| pgRw) (by omega) (by omega)
      (by rw [hpd]; rfl) (by simp [tableEntry, loopEntry, krnEntry]) hblock
  · exact walk_block h 6 7 (pgKrn ||| pgRw) (by omega) (by omega)
      (by rw [hpd]; rfl) (by simp [tableEntry, loopEntry, krnEntry]) hblock

/-- A directory with the kernel's table in front, a table of a task's own pages behind
slot `own`, and a table that holds only the shared page behind slot `shared`. -/
theorem walk_of_layout (h : TablesOk m) (kd ko ks own shared : Nat)
    (hkd : kd < 10) (hko : ko < 10) (hks : ks < 10)
    (hdir : tablesBase + BitVec.ofNat 32 (0x1000 * kd) ∈ [pgd, pgdTask1, pgdTask2])
    (heown : tableEntry kd own = usrEntry (0x350 + BitVec.ofNat 32 ko))
    (heshared : tableEntry kd shared = usrEntry (0x350 + BitVec.ofNat 32 ks))
    (herest : ∀ i, i ≠ 0 → i ≠ own → i ≠ shared → tableEntry kd i = 0)
    (hto : ∀ i, tableEntry ko i = usrEntry (BitVec.ofNat 32 (own * 1024) + BitVec.ofNat 32 i))
    (hts : ∀ i, tableEntry ks i = if i = 0 then usrEntry 0xe00 else 0) :
    walk m (tablesBase + BitVec.ofNat 32 (0x1000 * kd)) va
      = if pdIndex va = 0 then some { pa := va, user := false, rw := true }
        else if pdIndex va = own then some { pa := va, user := true, rw := true }
        else if pdIndex va = shared ∧ ptIndex va = 0 then
          some { pa := BitVec.ofNat 32 (0xe00000 + pageOffset va), user := true, rw := true }
        else none := by
  by_cases h0 : pdIndex va = 0
  · have hlt : va.toNat < kernelEnd := by simp only [pdIndex, kernelEnd] at *; omega
    rw [if_pos h0, walk_kernel h hlt hdir]
  rw [if_neg h0]
  by_cases ho : pdIndex va = own
  · have hblock : va.toNat / 2 ^ 22 * 2 ^ 10 = (BitVec.ofNat 32 (own * 1024) : Word).toNat := by
      have := pdIndex_lt va
      rw [show va.toNat / 2 ^ 22 = own from ho, BitVec.toNat_ofNat]
      omega
    rw [if_pos ho, walk_block h _ _ _ hkd hko (by rw [ho]; exact heown) (hto _) hblock]
    rfl
  rw [if_neg ho]
  by_cases hs : pdIndex va = shared
  · have hpde := heshared
    rw [← hs] at hpde
    by_cases hpt : ptIndex va = 0
    · have hpte := hts (ptIndex va)
      rw [if_pos hpt] at hpte
      rw [if_pos ⟨hs, hpt⟩, walk_of_entries h hkd hks hpde hpte]
      rfl
    · have hpte := hts (ptIndex va)
      rw [if_neg hpt] at hpte
      rw [if_neg (by tauto), walk_none_of_pte h hkd hks hpde hpte]
  · rw [if_neg (by tauto), walk_none_of_pde h hkd (herest _ h0 ho hs)]

theorem tableEntry_shared {k : Nat} (hk : k = 5 ∨ k = 9) (i : Nat) :
    tableEntry k i = if i = 0 then usrEntry 0xe00 else 0 := by
  obtain rfl | rfl := hk <;> cases i <;> simp [tableEntry, loopEntry]

/-- Where the shared page is seen at `base`. -/
theorem shared_pa (base : Word) (hbase : base.toNat % 2 ^ 12 = 0) (hlo : base.toNat ≤ va.toNat)
    (hhi : va.toNat < base.toNat + 0x1000) :
    BitVec.ofNat 32 (0xe00000 + pageOffset va) = va - base + 0xe00000 := by
  have hoff : pageOffset va = va.toNat - base.toNat := by unfold pageOffset; omega
  rw [hoff]
  bv_omega

/-- The address space of a task: the kernel's part, and what the task sees. -/
theorem walk_pgdOf (h : TablesOk m) (i : Fin 2) :
    walk m (pgdOf i) va
      = if va.toNat < kernelEnd then some { pa := va, user := false, rw := true }
        else (userMap i va).map fun pa => { pa, user := true, rw := true } := by
  have hidx := toNat_eq_indices va
  have hpt := ptIndex_lt va
  have hoff : pageOffset va < 2 ^ 12 := by unfold pageOffset; omega
  have hend : kernelEnd = 0x400000 := rfl
  match i with
  | 0 =>
    refine (walk_of_layout h 2 4 5 1 2
      (by omega) (by omega) (by omega) (by decide) rfl rfl ?_ ?_
      (tableEntry_shared (.inl rfl))).trans ?_
    · intro i h0 h1 h2
      simp [tableEntry, loopEntry, h0, h1, h2]
    · intro i
      simp [tableEntry, loopEntry]
    · simp only [userMap]
      by_cases hkrn : pdIndex va = 0
      · have hlt : va.toNat < kernelEnd := by omega
        rw [if_pos hkrn, if_pos hlt]
      have hge : ¬ va.toNat < kernelEnd := by omega
      rw [if_neg hkrn, if_neg hge]
      by_cases hown : pdIndex va = 1
      · rw [if_pos hown, if_pos (by omega), Option.map_some]
      by_cases hsh : pdIndex va = 2 ∧ ptIndex va = 0
      · rw [if_neg hown, if_pos hsh, if_neg (by omega), if_pos (by omega),
          shared_pa 0x800000 rfl (by simp; omega) (by simp; omega), Option.map_some]
      · rw [if_neg hown, if_neg hsh, if_neg (by omega), if_neg (by omega), Option.map_none]
  | 1 =>
    refine (walk_of_layout h 6 8 9 2 1
      (by omega) (by omega) (by omega) (by decide) rfl rfl ?_ ?_
      (tableEntry_shared (.inr rfl))).trans ?_
    · intro i h0 h1 h2
      simp [tableEntry, loopEntry, h0, h1, h2]
    · intro i
      simp [tableEntry, loopEntry]
    · simp only [userMap]
      by_cases hkrn : pdIndex va = 0
      · have hlt : va.toNat < kernelEnd := by omega
        rw [if_pos hkrn, if_pos hlt]
      have hge : ¬ va.toNat < kernelEnd := by omega
      rw [if_neg hkrn, if_neg hge]
      by_cases hown : pdIndex va = 2
      · rw [if_pos hown, if_pos (by omega), Option.map_some]
      by_cases hsh : pdIndex va = 1 ∧ ptIndex va = 0
      · rw [if_neg hown, if_pos hsh, if_neg (by omega), if_pos (by omega),
          shared_pa 0x400000 rfl (by simp; omega) (by simp; omega), Option.map_some]
      · rw [if_neg hown, if_neg hsh, if_neg (by omega), if_neg (by omega), Option.map_none]

theorem userMap_of_lt {i : Fin 2} (h : va.toNat < kernelEnd) : userMap i va = none := by
  simp only [kernelEnd] at h
  unfold userMap
  split
  · rw [if_neg (by omega), if_neg (by omega)]
  · rw [if_neg (by omega), if_neg (by omega)]

/-- What ring 3 reaches in each task's address space. -/
theorem userTranslate_pgdOf (h : TablesOk m) (i : Fin 2) :
    userTranslate m (pgdOf i) va = userMap i va := by
  unfold userTranslate
  rw [walk_pgdOf h]
  by_cases hkrn : va.toNat < kernelEnd
  · rw [if_pos hkrn, userMap_of_lt hkrn]
    rfl
  · rw [if_neg hkrn]
    cases userMap i va with
    | none => rfl
    | some pa => rfl

end Walks

end SecOS
