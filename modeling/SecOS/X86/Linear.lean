-- SUMMARY: Memory as a program reaches it: loads and stores through the translation in force, and runs in which every store reaches the address it names.
import SecOS.X86.Paging

/-!
# Linear memory

With paging on, every load and every store goes through the tables, which are in the
memory that is stored to. Nothing is cached, so a store to a table counts from the next
access on. A program that changes the tables it runs under is followed more easily on
physical memory; the two come to the same as long as its addresses stand for themselves
and its stores keep it so.
-/

namespace X86

/-- CR3, and the PG bit of CR0. -/
structure PagingRegs where
  cr3 : Word
  pg : Bool
  deriving DecidableEq

/-- The physical address of a linear one, at level 0. -/
def PagingRegs.translate (r : PagingRegs) (m : Mem) (va : Word) : Option Word :=
  if r.pg then (walk m r.cr3 va).map Translation.pa else some va

structure Linear where
  mem : Mem
  regs : PagingRegs
  /-- The stores made so far: the address that was named, and the one that was reached. -/
  log : List (Word × Word)

namespace Linear

/-- Store the `n` bytes `f 0, f 1, …` inside a page. A page fault gives `none`, and so does
a store that goes over the end of the page. -/
def store (s : Linear) (va : Word) (n : Nat) (f : Nat → Byte) : Option Linear :=
  if pageOffset va + n ≤ 2 ^ 12 then
    (s.regs.translate s.mem va).map fun pa =>
      { s with mem := s.mem.blit pa n f, log := s.log ++ [(va, pa)] }
  else none

def store32 (s : Linear) (va w : Word) : Option Linear := s.store va 4 (Mem.byteOf w)

def store8 (s : Linear) (va : Word) (b : Byte) : Option Linear := s.store va 1 fun _ => b

def load32 (s : Linear) (va : Word) : Option Word :=
  if pageOffset va + 4 ≤ 2 ^ 12 then (s.regs.translate s.mem va).map s.mem.read32 else none

def setCr3 (s : Linear) (cr3 : Word) : Linear := { s with regs := { s.regs with cr3 } }

/-- Paging is turned on. -/
def setPg (s : Linear) : Linear := { s with regs := { s.regs with pg := true } }

/-! ## Runs that name what they reach -/

/-- In memories that satisfy `I` the addresses in `A` stand for themselves, and stores to
them lead to such memories. -/
structure Stable (r : PagingRegs) (I : Mem → Prop) (A : Word → Prop) : Prop where
  translate : ∀ m va, I m → A va → r.translate m va = some va
  blit : ∀ m va n f, I m → (∀ b, Within va n b → A b) → I (m.blit va n f)

/-- The run from `s` with outcome `o` has not faulted, the memory it has left satisfies
`P`, and every store of it has reached the address it named. -/
def Reaches (P : Mem → Prop) (s : Linear) (o : Option Linear) : Prop :=
  ∃ m l, o = some { s with mem := m, log := s.log ++ l } ∧ P m ∧ ∀ e ∈ l, e.2 = e.1

variable {r : PagingRegs} {I P Q : Mem → Prop} {A : Word → Prop} {s : Linear}
variable {va pa : Word} {n : Nat} {f : Nat → Byte} {o : Option Linear} {k : Linear → Option Linear}

theorem Reaches.refl (h : P s.mem) : Reaches P s (some s) :=
  ⟨s.mem, [], by rw [List.append_nil], h, fun e he => absurd he List.not_mem_nil⟩

theorem Reaches.mono (h : Reaches P s o) (hPQ : ∀ m, P m → Q m) : Reaches Q s o := by
  obtain ⟨m, l, ho, hP, hl⟩ := h
  exact ⟨m, l, ho, hPQ m hP, hl⟩

/-- One run after another. -/
theorem Reaches.bind (h : Reaches P s o)
    (hk : ∀ s₁, s₁.regs = s.regs → P s₁.mem → Reaches Q s₁ (k s₁)) : Reaches Q s (o.bind k) := by
  obtain ⟨m₁, l₁, rfl, hP, hl₁⟩ := h
  obtain ⟨m₂, l₂, hrun, hQ, hl₂⟩ := hk { s with mem := m₁, log := s.log ++ l₁ } rfl hP
  refine ⟨m₂, l₁ ++ l₂, ?_, hQ, ?_⟩
  · rw [Option.bind_some, hrun, List.append_assoc]
  · intro e he
    rcases List.mem_append.mp he with he | he
    · exact hl₁ e he
    · exact hl₂ e he

/-- A store to addresses that stand for themselves. -/
theorem Stable.store (h : Stable r I A) (hr : s.regs = r) (hI : I s.mem) (hn : 0 < n)
    (hpage : pageOffset va + n ≤ 2 ^ 12) (hA : ∀ b, Within va n b → A b) :
    Reaches (fun m => I m ∧ m = s.mem.blit va n f) s (s.store va n f) := by
  have hva : A va := hA va (by simp only [Within, BitVec.sub_self]; exact hn)
  refine ⟨s.mem.blit va n f, [(va, va)], ?_, ⟨h.blit s.mem va n f hI hA, rfl⟩, ?_⟩
  · unfold Linear.store
    rw [if_pos hpage, hr, h.translate s.mem va hI hva, Option.map_some]
  · intro e he
    rw [List.mem_singleton.mp he]

theorem load32_of_translate (hpage : pageOffset va + 4 ≤ 2 ^ 12)
    (h : s.regs.translate s.mem va = some pa) : s.load32 va = some (s.mem.read32 pa) := by
  unfold Linear.load32
  rw [if_pos hpage, h, Option.map_some]

/-- Without paging every address stands for itself. -/
theorem stable_of_not_pg (h : r.pg = false) : Stable r (fun _ => True) (fun _ => True) where
  translate m va _ _ := by
    unfold PagingRegs.translate
    rw [h]
    rfl
  blit _ _ _ _ _ _ := trivial

/-- A word at an aligned address does not go over the end of a page. -/
theorem pageOffset_of_aligned (h : va.toNat % 4 = 0) : pageOffset va + 4 ≤ 2 ^ 12 := by
  unfold pageOffset
  omega

end Linear

end X86
