-- SUMMARY: The page tables that `tp` edits while it runs under them, and where each of its stores lands.
import SecOS.X86.Tables
import SecOS.Kernel.Linear
import Mathlib.Tactic.IntervalCases

/-!
# Tables edited from within

`tp` fills a directory and two tables, turns paging on, and goes on to edit them and a
third one through the mapping that they describe. It stays inside seven megabytes that
are mapped to themselves by entries it no longer touches.
-/

namespace SecOS

open X86

namespace Tp4

/-! ## The code -/

def pgd : Word := 0x600000
def ptb : Word := 0x601000
def ptb2 : Word := 0x602000
def ptb3 : Word := 0x603000
def target : Word := 0xc0000000
def v1 : Word := 0x700000
def v2 : Word := 0x7ff000

def pd32GetIdx (addr : Word) : Word := (addr >>> 22) &&& 0x3ff
def pt32GetIdx (addr : Word) : Word := (addr >>> 12) &&& 0x3ff

/-- A store of the kernel into its image or its stack, which lie below the tables. -/
structure KernelStore where
  addr : Word
  value : Byte
  lt : addr.toNat < 0x600000

/-- What the calls of `debug` store, in the order of the calls. Nothing else of `debug` is
followed: a string behind `v2` without an end would take it past the last mapped page. -/
structure DebugStores where
  cr3 : List KernelStore
  indices : List KernelStore
  target : List KernelStore
  shared : List KernelStore

def debug (s : Linear) : List KernelStore → Option Linear
  | [] => some s
  | k :: ks => do
    let s ← s.store8 k.addr k.value
    debug s ks

/-- `for(i=0;i<n;i++) pg_set_entry(&t[i], PG_KRN|PG_RW, i+lo);` -/
def fill (s : Linear) (t lo : Word) : Nat → Option Linear
  | 0 => some s
  | n + 1 => do
    let s ← fill s t lo n
    pgSetEntryLinear s (entryAddr t n) (pgKrn ||| pgRw) (BitVec.ofNat 32 n + lo)

/-- From Q5 on, up to where paging is turned on. -/
def tpIdentity (flags : Word) (s : Linear) : Option Linear := do
  let s ← fill s ptb 0 1024
  let s ← memsetLinear s flags pgd 0 pageSize
  let s ← pgSetEntryLinear s (entryAddr pgd 0) (pgKrn ||| pgRw) (pageGetNr ptb)
  let s ← fill s ptb2 1024 1024
  pgSetEntryLinear s (entryAddr pgd 1) (pgKrn ||| pgRw) (pageGetNr ptb2)

/-- Q7 and Q8. -/
def tpShared (d : DebugStores) (flags : Word) (s : Linear) : Option Linear := do
  let pgdIdx := pd32GetIdx target
  let ptbIdx := pt32GetIdx target
  let s ← debug s d.indices
  let s ← memsetLinear s flags ptb3 0 pageSize
  let s ← pgSetEntryLinear s (entryAddr ptb3 ptbIdx.toNat) (pgKrn ||| pgRw) (pageGetNr pgd)
  let s ← pgSetEntryLinear s (entryAddr pgd pgdIdx.toNat) (pgKrn ||| pgRw) (pageGetNr ptb3)
  -- the arguments of the next message
  let _ ← s.load32 pgd
  let _ ← s.load32 target
  let s ← debug s d.target
  let ptbIdx := pt32GetIdx v1
  let s ← pgSetEntryLinear s (entryAddr ptb2 ptbIdx.toNat) (pgKrn ||| pgRw) 2
  let ptbIdx := pt32GetIdx v2
  let s ← pgSetEntryLinear s (entryAddr ptb2 ptbIdx.toNat) (pgKrn ||| pgRw) 2
  debug s d.shared

/-- `tp` up to `*target = 0`. -/
def tp (d : DebugStores) (flags : Word) (s : Linear) : Option Linear := do
  let s ← debug s d.cr3
  let s ← tpIdentity flags (s.setCr3 pgd)
  tpShared d flags s.setPg

/-! ## Entries -/

/-- Every entry of the four tables from `pgd` on is the one that `E` gives. -/
def Holds (m : Mem) (E : Nat → Nat → PageEntry) : Prop :=
  ∀ k < 4, ∀ i < 1024, m.read32 (slotAt pgd k i) = E k i

def krnEntry (pfn : Word) : PageEntry := pgEntry (pgKrn ||| pgRw) pfn

def setSlot (E : Nat → Nat → PageEntry) (k i : Nat) (e : PageEntry) : Nat → Nat → PageEntry :=
  fun k' i' => if k' = k ∧ i' = i then e else E k' i'

def clearTable (E : Nat → Nat → PageEntry) (k : Nat) : Nat → Nat → PageEntry :=
  fun k' i' => if k' = k then 0 else E k' i'

/-- The first `n` entries of table `k` point to the pages from `lo` on. -/
def fillTable (E : Nat → Nat → PageEntry) (k : Nat) (lo : Word) (n : Nat) :
    Nat → Nat → PageEntry :=
  fun k' i' => if k' = k ∧ i' < n then krnEntry (BitVec.ofNat 32 i' + lo) else E k' i'

section Holds

variable {m : Mem} {E : Nat → Nat → PageEntry} {k i : Nat}

theorem pgd_room : pgd.toNat + 0x1000 * 4 ≤ 2 ^ 32 := by decide

theorem Holds.pgSetEntry (h : Holds m E) (hk : k < 4) (hi : i < 1024) (pfn : Word) :
    Holds (pgSetEntry m (slotAt pgd k i) (pgKrn ||| pgRw) pfn) (setSlot E k i (krnEntry pfn)) := by
  intro k' hk' i' hi'
  rw [pgSetEntry_eq, read32_slotAt_write32 pgd_room hk hi hk' hi', h k' hk' i' hi']
  rfl

theorem Holds.memset (h : Holds m E) (hk : k < 4) (flags : Word) :
    Holds (memset m flags (pgd + BitVec.ofNat 32 (0x1000 * k)) 0 pageSize).2.1
      (clearTable E k) := by
  intro k' hk' i' hi'
  have hsize : pageSize.toNat = 0x1000 := rfl
  rw [memset_eq, hsize, read32_slotAt_blit pgd_room hk' hk hi', h k' hk' i' hi']
  rfl

/-- What the kernel stores elsewhere does not matter. -/
theorem Holds.blit (h : Holds m E) {a : Word} {n : Nat} {f : Nat → Byte}
    (ha : a.toNat + n ≤ 0x600000) : Holds (m.blit a n f) E := by
  intro k hk i hi
  rw [← h k hk i hi]
  refine read32_slotAt_congr pgd_room hk hi fun b hlo _ => Mem.blit_not_within ?_
  have hpgd : pgd.toNat = 0x600000 := rfl
  simp only [Within]
  bv_omega

end Holds

/-! ## Operations on the entries -/

/-- The run has reached what it named, keeping `I`, and has left the entries `E`. -/
def Leaves (I : Mem → Prop) (E : Nat → Nat → PageEntry) (s : Linear) (o : Option Linear) : Prop :=
  Linear.Reaches (fun m => I m ∧ Holds m E) s o

section Leaves

variable {r : PagingRegs} {I : Mem → Prop} {A : Word → Prop} {s : Linear} {o : Option Linear}
variable {E E' : Nat → Nat → PageEntry} {k i n : Nat} {f : Linear → Option Linear}

/-- One operation after another, under the same paging registers. -/
theorem Leaves.bind (h : Leaves I E s o) (hr : s.regs = r)
    (hf : ∀ s₁, s₁.regs = r → I s₁.mem → Holds s₁.mem E → Leaves I E' s₁ (f s₁)) :
    Leaves I E' s (o.bind f) :=
  Linear.Reaches.bind h fun s₁ hr₁ hs₁ => hf s₁ (hr₁.trans hr) hs₁.1 hs₁.2

/-- A store to entry `i` of table `k` goes to four bytes of that table. -/
theorem within_slotAt (hk : k < 4) (hi : i < 1024) {b : Word}
    (hb : Within (slotAt pgd k i) 4 b) :
    0x600000 + 0x1000 * k + 4 * i ≤ b.toNat ∧ b.toNat < 0x600000 + 0x1000 * k + 4 * i + 4 := by
  have hs := toNat_slotAt pgd_room hk hi
  have hpgd : pgd.toNat = 0x600000 := rfl
  simp only [Within] at hb
  constructor <;> bv_omega

theorem leaves_pgSetEntry (h : Linear.Stable r I A) (hr : s.regs = r) (hI : I s.mem)
    (hE : Holds s.mem E) (hk : k < 4) (hi : i < 1024)
    (hA : ∀ b : Word, 0x600000 + 0x1000 * k + 4 * i ≤ b.toNat →
      b.toNat < 0x600000 + 0x1000 * k + 4 * i + 4 → A b) (pfn : Word) :
    Leaves I (setSlot E k i (krnEntry pfn)) s
      (pgSetEntryLinear s (slotAt pgd k i) (pgKrn ||| pgRw) pfn) := by
  have hs := toNat_slotAt pgd_room hk hi
  have hpgd : pgd.toNat = 0x600000 := rfl
  have hbytes : ∀ b, Within (slotAt pgd k i) 4 b → A b := fun b hb =>
    hA b (within_slotAt hk hi hb).1 (within_slotAt hk hi hb).2
  have hreach := reaches_pgSetEntryLinear h hr hI (by omega) hbytes (pgKrn ||| pgRw) pfn
  refine hreach.mono fun m hm => ⟨hm.1, ?_⟩
  rw [hm.2]
  exact hE.pgSetEntry hk hi pfn

theorem leaves_memset (h : Linear.Stable r I A) (hr : s.regs = r) (hI : I s.mem)
    (hE : Holds s.mem E) (hk : k < 4)
    (hA : ∀ b : Word, 0x600000 + 0x1000 * k ≤ b.toNat → b.toNat < 0x601000 + 0x1000 * k → A b)
    (flags : Word) :
    Leaves I (clearTable E k) s
      (memsetLinear s flags (pgd + BitVec.ofNat 32 (0x1000 * k)) 0 pageSize) := by
  have hpgd : pgd.toNat = 0x600000 := rfl
  have hsize : pageSize.toNat = 0x1000 := rfl
  have hbytes : ∀ b, Within (pgd + BitVec.ofNat 32 (0x1000 * k)) pageSize.toNat b → A b := by
    intro b hb
    simp only [Within, hsize] at hb
    exact hA b (by bv_omega) (by bv_omega)
  have hreach := reaches_memsetLinear h hr hI flags 0 pageSize (by bv_omega) rfl hbytes
  refine hreach.mono fun m hm => ⟨hm.1, ?_⟩
  rw [hm.2]
  exact hE.memset hk flags

/-- The kernel's own stores. -/
theorem leaves_debug (h : Linear.Stable r I A) (hr : s.regs = r) (hI : I s.mem)
    (hE : Holds s.mem E) (hA : ∀ b : Word, b.toNat < 0x600000 → A b) (ks : List KernelStore) :
    Leaves I E s (debug s ks) := by
  induction ks generalizing s with
  | nil => exact Linear.Reaches.refl ⟨hI, hE⟩
  | cons k ks ih =>
    have hlt := k.lt
    have hpage : pageOffset k.addr + 1 ≤ 2 ^ 12 := by
      unfold pageOffset
      omega
    have hstore := h.store (f := fun _ => k.value) hr hI (by decide) hpage fun b hb => by
      simp only [Within] at hb
      exact hA b (by bv_omega)
    unfold debug
    refine hstore.bind fun s₁ hregs hs₁ => ih (hregs.trans hr) hs₁.1 ?_
    rw [hs₁.2]
    exact hE.blit (by omega)

theorem fillTable_succ (hn : n < 1024) (lo : Word) :
    setSlot (fillTable E k lo n) k n (krnEntry (BitVec.ofNat 32 n + lo))
      = fillTable E k lo (n + 1) := by
  funext k' i'
  unfold setSlot fillTable
  by_cases hk : k' = k
  · by_cases hi : i' = n
    · subst hi
      rw [if_pos ⟨hk, rfl⟩, if_pos ⟨hk, Nat.lt_succ_self _⟩]
    · rw [if_neg (fun h => hi h.2)]
      exact if_congr (by omega) rfl rfl
  · rw [if_neg (fun h => hk h.1), if_neg (fun h => hk h.1), if_neg (fun h => hk h.1)]

theorem leaves_fill (h : Linear.Stable r I A) (hr : s.regs = r) (hI : I s.mem)
    (hE : Holds s.mem E) (hk : k < 4) (hn : n ≤ 1024) (hA : ∀ b, A b) (lo : Word) :
    Leaves I (fillTable E k lo n) s (fill s (pgd + BitVec.ofNat 32 (0x1000 * k)) lo n) := by
  induction n with
  | zero =>
    have hzero : fillTable E k lo 0 = E := by
      funext k' i'
      exact if_neg fun h => Nat.not_lt_zero i' h.2
    rw [hzero]
    exact Linear.Reaches.refl ⟨hI, hE⟩
  | succ n ih =>
    unfold fill
    refine (ih (by omega)).bind hr fun s₁ hr₁ hI₁ hE₁ => ?_
    rw [← fillTable_succ (by omega)]
    exact leaves_pgSetEntry h hr₁ hI₁ hE₁ hk (by omega) (fun b _ _ => hA b) _

end Leaves

/-! ## The first tables -/

/-- What is in the tables after Q6. -/
def identityEntry (E : Nat → Nat → PageEntry) (k i : Nat) : PageEntry :=
  match k with
  | 0 => if i = 0 then krnEntry 0x601 else if i = 1 then krnEntry 0x602 else 0
  | 1 => krnEntry (BitVec.ofNat 32 i)
  | 2 => krnEntry (BitVec.ofNat 32 i + 1024)
  | k => E k i

theorem Holds.congr {m : Mem} {E E' : Nat → Nat → PageEntry} (h : Holds m E)
    (hE : ∀ k < 4, ∀ i < 1024, E k i = E' k i) : Holds m E' := by
  intro k hk i hi
  rw [h k hk i hi, hE k hk i hi]

section Identity

variable {s : Linear} {E : Nat → Nat → PageEntry}

/-- Before paging is on, whatever the tables held. -/
theorem leaves_tpIdentity (hpg : s.regs.pg = false) (hE : Holds s.mem E) (flags : Word) :
    Leaves (fun _ => True) (identityEntry E) s (tpIdentity flags s) := by
  have hst := Linear.stable_of_not_pg hpg
  have hptb : ptb = pgd + BitVec.ofNat 32 (0x1000 * 1) := rfl
  have hpgd : pgd = pgd + BitVec.ofNat 32 (0x1000 * 0) := rfl
  have hptb2 : ptb2 = pgd + BitVec.ofNat 32 (0x1000 * 2) := rfl
  have h0 : entryAddr pgd 0 = slotAt pgd 0 0 := rfl
  have h1 : entryAddr pgd 1 = slotAt pgd 0 1 := rfl
  have hrun : Leaves (fun _ => True)
      (setSlot (fillTable (setSlot (clearTable (fillTable E 1 0 1024) 0) 0 0 (krnEntry 0x601))
        2 1024 1024) 0 1 (krnEntry 0x602)) s (tpIdentity flags s) := by
    unfold tpIdentity
    rw [hptb, h0, hptb2, h1]
    refine (leaves_fill hst rfl trivial hE (by decide) le_rfl (fun _ => trivial) 0).bind rfl
      fun s₁ hr₁ _ hE₁ => ?_
    refine (leaves_memset hst hr₁ trivial hE₁ (k := 0) (by decide) (fun _ _ _ => trivial)
      flags).bind hr₁ fun s₂ hr₂ _ hE₂ => ?_
    refine (leaves_pgSetEntry hst hr₂ trivial hE₂ (by decide) (by decide) (fun _ _ _ => trivial)
      _).bind hr₂ fun s₃ hr₃ _ hE₃ => ?_
    refine (leaves_fill hst hr₃ trivial hE₃ (by decide) le_rfl (fun _ => trivial) 1024).bind hr₃
      fun s₄ hr₄ _ hE₄ => ?_
    exact leaves_pgSetEntry hst hr₄ trivial hE₄ (by decide) (by decide) (fun _ _ _ => trivial) _
  refine hrun.mono fun m hm => ⟨trivial, hm.2.congr fun k hk i hi => ?_⟩
  interval_cases k
  · by_cases h1 : i = 1
    · subst h1
      rfl
    · simp [setSlot, fillTable, clearTable, identityEntry, h1]
  · simp [setSlot, fillTable, clearTable, identityEntry, hi]
  · simp [setSlot, fillTable, identityEntry, hi]
  · simp [setSlot, fillTable, clearTable, identityEntry]

end Identity

/-! ## The mapping that is relied on -/

/-- The entries that map the first seven megabytes to themselves. -/
structure Low (m : Mem) : Prop where
  pde0 : m.read32 (slotAt pgd 0 0) = krnEntry 0x601
  pde1 : m.read32 (slotAt pgd 0 1) = krnEntry 0x602
  pte0 : ∀ i < 1024, m.read32 (slotAt pgd 1 i) = krnEntry (BitVec.ofNat 32 i)
  pte1 : ∀ i < 768, m.read32 (slotAt pgd 2 i) = krnEntry (BitVec.ofNat 32 i + 1024)

/-- What may be stored to without touching these entries. -/
def Editable (b : Word) : Prop :=
  b.toNat < 0x600000 ∨ 0x600008 ≤ b.toNat ∧ b.toNat < 0x601000 ∨
    0x602c00 ≤ b.toNat ∧ b.toNat < 0x604000

section Low

variable {m : Mem} {va : Word}

/-- Table `k` as an entry of the directory names it. -/
theorem frame_slots {k : Nat} (hk : k < 4) :
    BitVec.ofNat 32 ((0x600 + BitVec.ofNat 32 k : Word).toNat % 2 ^ 20 * 2 ^ 12)
      = pgd + BitVec.ofNat 32 (0x1000 * k) := by
  interval_cases k <;> rfl

/-- The walk through table `k`. -/
theorem walk_slots (k : Nat) (pfn : Word) (hk : k < 4)
    (hpde : m.read32 (slotAt pgd 0 (pdIndex va)) = krnEntry (0x600 + BitVec.ofNat 32 k))
    (hpte : m.read32 (slotAt pgd k (ptIndex va)) = krnEntry pfn) :
    walk m pgd va = some
      { pa := BitVec.ofNat 32 (pfn.toNat % 2 ^ 20 * 2 ^ 12 + pageOffset va)
        user := false, rw := true } := by
  have hdir : m.read32 (entryAddr pgd (pdIndex va)) = krnEntry (0x600 + BitVec.ofNat 32 k) := hpde
  rw [slotAt, ← frame_slots hk] at hpte
  exact walk_pgEntry hdir hpte

/-- Table `k` maps the four megabytes behind page `lo` to themselves. -/
theorem walk_slots_self (k : Nat) (lo : Word) (hk : k < 4)
    (hpde : m.read32 (slotAt pgd 0 (pdIndex va)) = krnEntry (0x600 + BitVec.ofNat 32 k))
    (hpte : m.read32 (slotAt pgd k (ptIndex va)) = krnEntry (BitVec.ofNat 32 (ptIndex va) + lo))
    (hlo : lo.toNat = pdIndex va * 1024) :
    walk m pgd va = some { pa := va, user := false, rw := true } := by
  have hidx := toNat_eq_indices va
  have hpd := pdIndex_lt va
  have hpt := ptIndex_lt va
  have hpfn : (BitVec.ofNat 32 (ptIndex va) + lo).toNat = pdIndex va * 1024 + ptIndex va := by
    bv_omega
  have hpa : BitVec.ofNat 32 ((pdIndex va * 1024 + ptIndex va) % 2 ^ 20 * 2 ^ 12 + pageOffset va)
      = va := by
    apply BitVec.eq_of_toNat_eq
    have hlt := va.isLt
    rw [BitVec.toNat_ofNat]
    omega
  rw [walk_slots k _ hk hpde hpte, hpfn, hpa]

theorem Low.walk_self (h : Low m) (hva : va.toNat < 0x700000) :
    walk m pgd va = some { pa := va, user := false, rw := true } := by
  have hidx := toNat_eq_indices va
  have hpt := ptIndex_lt va
  rcases Nat.lt_or_ge va.toNat 0x400000 with hlt | hge
  · have hpd : pdIndex va = 0 := by
      unfold pdIndex
      omega
    refine walk_slots_self 1 0#32 (by decide) ?_ ?_ (by rw [hpd]; rfl)
    · rw [hpd]
      exact h.pde0
    · rw [BitVec.add_zero]
      exact h.pte0 _ hpt
  · have hpd : pdIndex va = 1 := by
      unfold pdIndex
      omega
    refine walk_slots_self 2 1024 (by decide) ?_ ?_ (by rw [hpd]; rfl)
    · rw [hpd]
      exact h.pde1
    · exact h.pte1 _ (by omega)

theorem Editable.lt {b : Word} (h : Editable b) : b.toNat < 0x700000 := by
  unfold Editable at h
  omega

/-- An entry whose bytes are not edited. -/
theorem read32_slotAt_blit_editable {k i n : Nat} {f : Nat → Byte} (hk : k < 4) (hi : i < 1024)
    (hout : ∀ b : Word, 0x600000 + 0x1000 * k + 4 * i ≤ b.toNat →
      b.toNat < 0x600000 + 0x1000 * k + 4 * i + 4 → ¬ Editable b)
    (hA : ∀ b, Within va n b → Editable b) :
    (m.blit va n f).read32 (slotAt pgd k i) = m.read32 (slotAt pgd k i) :=
  read32_slotAt_congr pgd_room hk hi fun b hlo hhi =>
    Mem.blit_not_within fun hb => hout b hlo hhi (hA b hb)

/-- With paging on, seven megabytes stay mapped to themselves while the rest is edited. -/
theorem stable_low : Linear.Stable { cr3 := pgd, pg := true } Low Editable where
  translate m va h hva := by
    unfold PagingRegs.translate
    rw [if_pos rfl, h.walk_self hva.lt]
    rfl
  blit m va n f h hA := by
    refine ⟨?_, ?_, fun i hi => ?_, fun i hi => ?_⟩
    · refine (read32_slotAt_blit_editable (by decide) (by decide) ?_ hA).trans h.pde0
      intro b hlo hhi
      unfold Editable
      omega
    · refine (read32_slotAt_blit_editable (by decide) (by decide) ?_ hA).trans h.pde1
      intro b hlo hhi
      unfold Editable
      omega
    · refine (read32_slotAt_blit_editable (by decide) hi ?_ hA).trans (h.pte0 i hi)
      intro b hlo hhi
      unfold Editable
      omega
    · refine (read32_slotAt_blit_editable (by decide) (by omega) ?_ hA).trans (h.pte1 i hi)
      intro b hlo hhi
      unfold Editable
      omega

end Low

/-! ## The edits -/

/-- What is in the tables at the end. -/
def sharedEntry (k i : Nat) : PageEntry :=
  match k with
  | 0 =>
    if i = 0 then krnEntry 0x601 else if i = 1 then krnEntry 0x602
    else if i = 768 then krnEntry 0x603 else 0
  | 1 => krnEntry (BitVec.ofNat 32 i)
  | 2 => if i = 768 ∨ i = 1023 then krnEntry 2 else krnEntry (BitVec.ofNat 32 i + 1024)
  | _ => if i = 0 then krnEntry 0x600 else 0

theorem low_of_holds {m : Mem} {E : Nat → Nat → PageEntry} (h : Holds m (identityEntry E)) :
    Low m := by
  refine ⟨?_, ?_, fun i hi => ?_, fun i hi => ?_⟩
  · exact h 0 (by decide) 0 (by decide)
  · exact h 0 (by decide) 1 (by decide)
  · exact h 1 (by decide) i hi
  · exact h 2 (by decide) i (by omega)

section Shared

variable {s : Linear} {E : Nat → Nat → PageEntry}

theorem load32_of_walk (va : Word) {t : Translation} (hr : s.regs = { cr3 := pgd, pg := true })
    (hpage : pageOffset va + 4 ≤ 2 ^ 12) (h : walk s.mem pgd va = some t) :
    s.load32 va = some (s.mem.read32 t.pa) := by
  refine Linear.load32_of_translate hpage ?_
  rw [hr]
  unfold PagingRegs.translate
  rw [if_pos rfl, h]
  rfl

/-- With paging on, from the tables of Q6. -/
theorem leaves_tpShared (hr : s.regs = { cr3 := pgd, pg := true })
    (hE : Holds s.mem (identityEntry E)) (d : DebugStores) (flags : Word) :
    Leaves Low sharedEntry s (tpShared d flags s) := by
  have hst := stable_low
  have hlow : Low s.mem := low_of_holds hE
  have hptb3 : ptb3 = pgd + BitVec.ofNat 32 (0x1000 * 3) := rfl
  have hself : entryAddr ptb3 (pt32GetIdx target).toNat = slotAt pgd 3 0 := rfl
  have hpde : entryAddr pgd (pd32GetIdx target).toNat = slotAt pgd 0 768 := rfl
  have hv1 : entryAddr ptb2 (pt32GetIdx v1).toNat = slotAt pgd 2 768 := rfl
  have hv2 : entryAddr ptb2 (pt32GetIdx v2).toNat = slotAt pgd 2 1023 := rfl
  have hkernel : ∀ b : Word, b.toNat < 0x600000 → Editable b := fun b hb => .inl hb
  have hrun : Leaves Low
      (setSlot (setSlot (setSlot (setSlot (clearTable (identityEntry E) 3) 3 0 (krnEntry 0x600))
        0 768 (krnEntry 0x603)) 2 768 (krnEntry 2)) 2 1023 (krnEntry 2)) s
      (tpShared d flags s) := by
    unfold tpShared
    simp only [hself, hpde, hv1, hv2]
    rw [hptb3]
    refine (leaves_debug hst hr hlow hE hkernel d.indices).bind hr fun s₁ hr₁ hI₁ hE₁ => ?_
    refine (leaves_memset hst hr₁ hI₁ hE₁ (k := 3) (by decide)
      (fun b hlo hhi => .inr (.inr (by omega))) flags).bind hr₁ fun s₂ hr₂ hI₂ hE₂ => ?_
    refine (leaves_pgSetEntry hst hr₂ hI₂ hE₂ (by decide) (by decide)
      (fun b hlo hhi => .inr (.inr (by omega))) _).bind hr₂ fun s₃ hr₃ hI₃ hE₃ => ?_
    refine (leaves_pgSetEntry hst hr₃ hI₃ hE₃ (by decide) (by decide)
      (fun b hlo hhi => .inr (.inl (by omega))) _).bind hr₃ fun s₄ hr₄ hI₄ hE₄ => ?_
    -- the directory is read where it is, and through the page that maps it
    have hload := load32_of_walk pgd hr₄ (by decide) (hI₄.walk_self (by decide))
    have htarget := load32_of_walk target hr₄ (by decide)
      (walk_slots 3 0x600 (by decide) (hE₄ 0 (by decide) 768 (by decide))
        (hE₄ 3 (by decide) 0 (by decide)))
    rw [hload, htarget]
    refine (leaves_debug hst hr₄ hI₄ hE₄ hkernel d.target).bind hr₄ fun s₅ hr₅ hI₅ hE₅ => ?_
    refine (leaves_pgSetEntry hst hr₅ hI₅ hE₅ (by decide) (by decide)
      (fun b hlo hhi => .inr (.inr (by omega))) _).bind hr₅ fun s₆ hr₆ hI₆ hE₆ => ?_
    refine (leaves_pgSetEntry hst hr₆ hI₆ hE₆ (by decide) (by decide)
      (fun b hlo hhi => .inr (.inr (by omega))) _).bind hr₆ fun s₇ hr₇ hI₇ hE₇ => ?_
    exact leaves_debug hst hr₇ hI₇ hE₇ hkernel d.shared
  refine hrun.mono fun m hm => ⟨hm.1, hm.2.congr fun k hk i hi => ?_⟩
  interval_cases k
  · by_cases h768 : i = 768
    · subst h768
      rfl
    · simp [setSlot, clearTable, identityEntry, sharedEntry, h768]
  · rfl
  · by_cases h1023 : i = 1023
    · subst h1023
      rfl
    · simp [setSlot, clearTable, identityEntry, sharedEntry, h1023]
  · simp [setSlot, clearTable, sharedEntry]

end Shared

/-! ## The address space -/

/-- Where a linear address leads just before `*target = 0`. -/
def addressSpace (va : Word) : Option Word :=
  if pageGetNr va = 0x700 ∨ pageGetNr va = 0x7ff then
    some (0x2000 + BitVec.ofNat 32 (pageOffset va))
  else if va.toNat < 0x800000 then some va
  else if pageGetNr va = 0xc0000 then some (pgd + BitVec.ofNat 32 (pageOffset va))
  else none

section Walks

variable {m : Mem} {va : Word}

theorem toNat_pageGetNr (va : Word) : (pageGetNr va).toNat = pdIndex va * 1024 + ptIndex va := by
  unfold pageGetNr pdIndex ptIndex
  rw [BitVec.toNat_ushiftRight, Nat.shiftRight_eq_div_pow]
  omega

theorem pageGetNr_eq {nr : Word} :
    pageGetNr va = nr ↔ pdIndex va * 1024 + ptIndex va = nr.toNat := by
  rw [← toNat_pageGetNr]
  exact ⟨congrArg BitVec.toNat, BitVec.eq_of_toNat_eq⟩

/-- The physical address behind page `nr`. -/
theorem page_pa (nr : Nat) (va : Word) :
    BitVec.ofNat 32 (nr * 2 ^ 12 + pageOffset va)
      = BitVec.ofNat 32 (nr * 2 ^ 12) + BitVec.ofNat 32 (pageOffset va) := BitVec.ofNat_add _ _

theorem walk_slots_zero (k : Nat) (hk : k < 4)
    (hpde : m.read32 (slotAt pgd 0 (pdIndex va)) = krnEntry (0x600 + BitVec.ofNat 32 k))
    (hpte : m.read32 (slotAt pgd k (ptIndex va)) = 0) : walk m pgd va = none := by
  have hdir : m.read32 (entryAddr pgd (pdIndex va)) = krnEntry (0x600 + BitVec.ofNat 32 k) := hpde
  rw [slotAt, ← frame_slots hk] at hpte
  exact walk_pgEntry_zero hdir hpte

/-- The tables that `tp` leaves describe the address space. -/
theorem walk_sharedEntry (h : Holds m sharedEntry) (va : Word) :
    walk m pgd va = (addressSpace va).map fun pa => { pa, user := false, rw := true } := by
  have hidx := toNat_eq_indices va
  have hpd := pdIndex_lt va
  have hpt := ptIndex_lt va
  have hoff : pageOffset va < 2 ^ 12 := Nat.mod_lt _ (by decide)
  have hpde := h 0 (by decide) _ hpd
  have h700 : (0x700 : Word).toNat = 0x700 := rfl
  have h7ff : (0x7ff : Word).toNat = 0x7ff := rfl
  have hc00 : (0xc0000 : Word).toNat = 0xc0000 := rfl
  unfold addressSpace
  simp only [pageGetNr_eq, h700, h7ff, hc00]
  by_cases h0 : pdIndex va = 0
  · have hpte := h 1 (by decide) _ hpt
    rw [h0] at hpde
    rw [if_neg (by omega), if_pos (by omega)]
    refine walk_slots_self 1 0#32 (by decide) ?_ ?_ (by rw [h0]; rfl)
    · rw [h0, hpde]
      rfl
    · rw [hpte, BitVec.add_zero]
      rfl
  by_cases h1 : pdIndex va = 1
  · have hpte := h 2 (by decide) _ hpt
    rw [h1] at hpde
    by_cases hshared : ptIndex va = 768 ∨ ptIndex va = 1023
    · have hentry : sharedEntry 2 (ptIndex va) = krnEntry 2 := if_pos hshared
      rw [if_pos (by omega), walk_slots 2 2 (by decide) (by rw [h1, hpde]; rfl)
        (hpte.trans hentry)]
      exact congrArg (fun pa => some (Translation.mk pa false true)) (page_pa 2 va)
    · have hentry : sharedEntry 2 (ptIndex va) = krnEntry (BitVec.ofNat 32 (ptIndex va) + 1024) :=
        if_neg hshared
      rw [if_neg (by omega), if_pos (by omega)]
      exact walk_slots_self 2 1024 (by decide) (by rw [h1, hpde]; rfl)
        (hpte.trans hentry) (by rw [h1]; rfl)
  by_cases h768 : pdIndex va = 768
  · have hpte := h 3 (by decide) _ hpt
    rw [h768] at hpde
    by_cases hself : ptIndex va = 0
    · have hentry : sharedEntry 3 (ptIndex va) = krnEntry 0x600 := if_pos hself
      rw [if_neg (by omega), if_neg (by omega), if_pos (by omega),
        walk_slots 3 0x600 (by decide) (by rw [h768, hpde]; rfl)
          (hpte.trans hentry)]
      exact congrArg (fun pa => some (Translation.mk pa false true)) (page_pa 0x600 va)
    · have hentry : sharedEntry 3 (ptIndex va) = 0 := if_neg hself
      rw [if_neg (by omega), if_neg (by omega), if_neg (by omega)]
      exact walk_slots_zero 3 (by decide) (by rw [h768, hpde]; rfl) (hpte.trans hentry)
  · have hentry : sharedEntry 0 (pdIndex va) = 0 := by simp [sharedEntry, h0, h1, h768]
    have hdir : m.read32 (entryAddr pgd (pdIndex va)) = 0 := hpde.trans hentry
    rw [if_neg (by omega), if_neg (by omega), if_neg (by omega)]
    refine walk_eq_none ?_
    rw [hdir]
    rfl

end Walks

/-! ## The whole of tp -/

/-- Whatever memory held, as long as the string that the last message prints from page 2 ends
there, and whatever `debug` stores into the kernel: `tp` comes to the store to `*target`
without a fault, each of its stores has reached the physical address that it named, and the
directory maps what `addressSpace` says and nothing else. -/
theorem tp_addressSpace (m : Mem) (cr3 flags : Word) (d : DebugStores) :
    ∃ s, tp d flags { mem := m, regs := { cr3, pg := false }, log := [] } = some s ∧
      s.regs = { cr3 := pgd, pg := true } ∧
      (∀ e ∈ s.log, e.2 = e.1) ∧
      ∀ va, walk s.mem s.regs.cr3 va
        = (addressSpace va).map fun pa => { pa, user := false, rw := true } := by
  have hst (cr3 : Word) := Linear.stable_of_not_pg (r := { cr3, pg := false }) rfl
  obtain ⟨m₀, l₀, hrun₀, -, hl₀⟩ := leaves_debug (hst cr3)
    (s := { mem := m, regs := { cr3, pg := false }, log := [] }) rfl trivial (fun _ _ _ _ => rfl)
    (fun _ _ => trivial) d.cr3
  obtain ⟨m₁, l₁, hrun₁, ⟨-, hE₁⟩, hl₁⟩ := leaves_tpIdentity
    (s := { mem := m₀, regs := { cr3 := pgd, pg := false }, log := [] ++ l₀ }) rfl
    (fun _ _ _ _ => rfl) flags
  obtain ⟨m₂, l₂, hrun₂, ⟨-, hE₂⟩, hl₂⟩ := leaves_tpShared
    (s := { mem := m₁, regs := { cr3 := pgd, pg := true }, log := [] ++ l₀ ++ l₁ }) rfl hE₁ d flags
  refine ⟨{ mem := m₂, regs := { cr3 := pgd, pg := true }, log := [] ++ l₀ ++ l₁ ++ l₂ },
    ?_, rfl, ?_, walk_sharedEntry hE₂⟩
  · unfold tp
    rw [hrun₀, Option.bind_eq_bind, Option.bind_some]
    exact (congrArg (·.bind fun s => tpShared d flags s.setPg) hrun₁).trans hrun₂
  · intro e he
    simp only [List.nil_append, List.append_assoc, List.mem_append] at he
    rcases he with he | he | he
    · exact hl₀ e he
    · exact hl₁ e he
    · exact hl₂ e he

end Tp4

end SecOS
