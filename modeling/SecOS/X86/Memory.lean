-- SUMMARY: Byte-addressed 32-bit memory: block updates, little-endian words, word lists, and downward-growing stacks.
import Mathlib.Data.BitVec

/-!
# Memory

A memory maps every 32-bit address to a byte. Addresses wrap, so a range is
given by its first address `a` and its length `n`, and the distance of a byte
from `a` is taken modulo `2^32`. Nothing below assumes that a range does not
wrap; what a lemma needs is that the range is no longer than the address space.
-/

namespace X86

abbrev Byte := BitVec 8
abbrev Word := BitVec 32
abbrev Mem := Word → Byte

/-- Address `b` is one of the `n` addresses from `a` on. -/
def Within (a : Word) (n : Nat) (b : Word) : Prop := (b - a).toNat < n

instance (a : Word) (n : Nat) (b : Word) : Decidable (Within a n b) :=
  inferInstanceAs (Decidable (_ < _))

namespace Mem

/-! ## Block updates -/

/-- The `n` bytes from `a` on become `f 0, f 1, …`. -/
def blit (m : Mem) (a : Word) (n : Nat) (f : Nat → Byte) : Mem :=
  fun b => if (b - a).toNat < n then f (b - a).toNat else m b

theorem blit_within {m : Mem} {a b : Word} {n : Nat} {f : Nat → Byte} (h : Within a n b) :
    m.blit a n f b = f (b - a).toNat := if_pos h

theorem blit_not_within {m : Mem} {a b : Word} {n : Nat} {f : Nat → Byte} (h : ¬ Within a n b) :
    m.blit a n f b = m b := if_neg h

/-- What a block update covers does not matter before it. -/
theorem blit_congr {m m' : Mem} {a : Word} {n : Nat} {f : Nat → Byte}
    (h : ∀ b, ¬ Within a n b → m' b = m b) : m'.blit a n f = m.blit a n f := by
  funext b
  by_cases hb : Within a n b
  · rw [blit_within hb, blit_within hb]
  · rw [blit_not_within hb, blit_not_within hb, h b hb]

/-- Block updates of the same bytes with the same values are the same. -/
theorem blit_congr_fun {m : Mem} {a : Word} {n : Nat} {f g : Nat → Byte} (h : ∀ i < n, f i = g i) :
    m.blit a n f = m.blit a n g := by
  funext b
  by_cases hb : Within a n b
  · rw [blit_within hb, blit_within hb, h _ hb]
  · rw [blit_not_within hb, blit_not_within hb]

@[simp] theorem blit_zero (m : Mem) (a : Word) (f : Nat → Byte) : m.blit a 0 f = m := by
  funext b
  exact blit_not_within (Nat.not_lt_zero _)

/-- A block is updated in two parts. -/
theorem blit_blit (m : Mem) (a : Word) {k n : Nat} (f : Nat → Byte) (h : k + n ≤ 2 ^ 32) :
    (m.blit a k f).blit (a + BitVec.ofNat 32 k) n (fun i => f (k + i)) = m.blit a (k + n) f := by
  funext b
  by_cases hhead : Within a k b
  · have hout : ¬ Within (a + BitVec.ofNat 32 k) n b := by simp only [Within] at *; bv_omega
    have hin : Within a (k + n) b := Nat.lt_add_right n hhead
    rw [blit_not_within hout, blit_within hhead, blit_within hin]
  · by_cases htail : Within (a + BitVec.ofNat 32 k) n b
    · have hin : Within a (k + n) b := by simp only [Within] at *; bv_omega
      have hidx : k + (b - (a + BitVec.ofNat 32 k)).toNat = (b - a).toNat := by
        simp only [Within] at *; bv_omega
      rw [blit_within htail, blit_within hin, hidx]
    · have hout : ¬ Within a (k + n) b := by simp only [Within] at *; bv_omega
      rw [blit_not_within htail, blit_not_within hhead, blit_not_within hout]

/-- Byte `i` of an updated block. -/
theorem blit_add {m : Mem} {a : Word} {n i : Nat} {f : Nat → Byte} (hi : i < n)
    (hn : n ≤ 2 ^ 32) : m.blit a n f (a + BitVec.ofNat 32 i) = f i := by
  have hidx : (a + BitVec.ofNat 32 i - a).toNat = i := by bv_omega
  have hin : Within a n (a + BitVec.ofNat 32 i) := by simp only [Within, hidx]; exact hi
  rw [blit_within hin, hidx]

/-- An update changes nothing exactly when it writes what is already there. -/
theorem blit_eq_self_iff {m : Mem} {a : Word} {n : Nat} {f : Nat → Byte} (hn : n ≤ 2 ^ 32) :
    m.blit a n f = m ↔ ∀ i < n, m (a + BitVec.ofNat 32 i) = f i := by
  constructor
  · intro h i hi
    rw [← blit_add (m := m) (f := f) hi hn, h]
  · intro h
    funext b
    by_cases hb : Within a n b
    · rw [blit_within hb, ← h _ hb]
      congr 1
      bv_omega
    · exact blit_not_within hb

/-! ## Little-endian words -/

/-- Byte `k` of a word, counted from the least significant one. -/
def byteOf (w : Word) (k : Nat) : Byte := w.extractLsb' (8 * k) 8

def read32 (m : Mem) (a : Word) : Word := m (a + 3) ++ m (a + 2) ++ m (a + 1) ++ m a

def read64 (m : Mem) (a : Word) : BitVec 64 := read32 m (a + 4) ++ read32 m a

def write32 (m : Mem) (a w : Word) : Mem := m.blit a 4 (byteOf w)

/-- A word is determined by the four bytes it is read from. -/
theorem read32_congr {m m' : Mem} {a : Word} (h : ∀ b, Within a 4 b → m' b = m b) :
    m'.read32 a = m.read32 a := by
  have h0 : m' a = m a := h a (by simp [Within])
  have h1 : m' (a + 1) = m (a + 1) := h _ (by simp only [Within]; bv_omega)
  have h2 : m' (a + 2) = m (a + 2) := h _ (by simp only [Within]; bv_omega)
  have h3 : m' (a + 3) = m (a + 3) := h _ (by simp only [Within]; bv_omega)
  simp only [read32, h0, h1, h2, h3]

theorem byteOf_append (w : Word) : byteOf w 3 ++ byteOf w 2 ++ byteOf w 1 ++ byteOf w 0 = w := by
  apply BitVec.eq_of_getLsbD_eq
  intro i hi
  simp only [byteOf, BitVec.getLsbD_append, BitVec.getLsbD_extractLsb']
  split
  · simp [*]
  · split
    · have : i - 8 < 8 := ‹_›
      simp only [this, decide_true, Bool.true_and]
      congr 1; omega
    · split
      · have : i - 8 - 8 < 8 := ‹_›
        simp only [this, decide_true, Bool.true_and]
        congr 1; omega
      · have : i - 8 - 8 - 8 < 8 := by omega
        simp only [this, decide_true, Bool.true_and]
        congr 1; omega

theorem byteOf_of_append {f : Nat → Byte} {k : Nat} (hk : k < 4) :
    byteOf (f 3 ++ f 2 ++ f 1 ++ f 0) k = f k := by
  apply BitVec.eq_of_getLsbD_eq
  intro i hi
  have hbit : (byteOf (f 3 ++ f 2 ++ f 1 ++ f 0) k).getLsbD i
      = (decide (i < 8) && (f 3 ++ f 2 ++ f 1 ++ f 0).getLsbD (8 * k + i)) :=
    BitVec.getLsbD_extractLsb' ..
  rw [hbit]
  simp only [BitVec.getLsbD_append, hi, decide_true, Bool.true_and]
  have hcase : k = 0 ∨ k = 1 ∨ k = 2 ∨ k = 3 := by omega
  obtain rfl | rfl | rfl | rfl := hcase
  · rw [if_pos (by omega), Nat.mul_zero, Nat.zero_add]
  · rw [if_neg (by omega), if_pos (by omega), show 8 * 1 + i - 8 = i by omega]
  · rw [if_neg (by omega), if_neg (by omega), if_pos (by omega),
      show 8 * 2 + i - 8 - 8 = i by omega]
  · rw [if_neg (by omega), if_neg (by omega), if_neg (by omega),
      show 8 * 3 + i - 8 - 8 - 8 = i by omega]

@[simp] theorem read32_write32 (m : Mem) (a w : Word) : (m.write32 a w).read32 a = w := by
  have h1 : (a + 1 - a).toNat = 1 := by bv_omega
  have h2 : (a + 2 - a).toNat = 2 := by bv_omega
  have h3 : (a + 3 - a).toNat = 3 := by bv_omega
  simp only [read32, write32, blit, h1, h2, h3, BitVec.sub_self, BitVec.toNat_zero]
  exact byteOf_append w

@[simp] theorem write32_write32 (m : Mem) (a v w : Word) :
    (m.write32 a v).write32 a w = m.write32 a w := by
  funext b
  simp only [write32, blit]
  split <;> rfl

/-- Moving a word moves its four bytes. -/
theorem write32_read32 (m m' : Mem) (a b : Word) :
    m.write32 a (m'.read32 b) = m.blit a 4 fun i => m' (b + BitVec.ofNat 32 i) := by
  refine blit_congr_fun fun i hi => ?_
  have hbyte := byteOf_of_append (f := fun i => m' (b + BitVec.ofNat 32 i)) hi
  simpa [read32] using hbyte

/-- A word is written byte by byte. -/
theorem write32_eq_blit (m : Mem) (a w : Word) :
    m.write32 a w = (((m.blit a 1 fun _ => byteOf w 0).blit (a + 1) 1 fun _ => byteOf w 1).blit
      (a + 2) 1 fun _ => byteOf w 2).blit (a + 3) 1 fun _ => byteOf w 3 := by
  funext b
  unfold write32 blit
  have hcase : (b - a).toNat = 0 ∨ (b - a).toNat = 1 ∨ (b - a).toNat = 2 ∨ (b - a).toNat = 3 ∨
      4 ≤ (b - a).toNat := by omega
  rcases hcase with h | h | h | h | h
  all_goals
    simp only [h]
    repeat' split
  all_goals first | rfl | (exfalso; bv_omega)

theorem write32_not_within {m : Mem} {a w b : Word} (h : ¬ Within a 4 b) :
    m.write32 a w b = m b := blit_not_within h

/-- Two words do not overlap when each starts at least four bytes past the other. -/
theorem read32_write32_of_disjoint {m : Mem} {a b w : Word}
    (h : 4 ≤ (a - b).toNat) (h' : 4 ≤ (b - a).toNat) :
    (m.write32 a w).read32 b = m.read32 b := by
  refine read32_congr fun c hc => write32_not_within ?_
  simp only [Within] at *
  bv_omega

/-! ## Word lists -/

def readWords (m : Mem) (a : Word) : Nat → List Word
  | 0 => []
  | n + 1 => m.read32 a :: readWords m (a + 4) n

def writeWords (m : Mem) (a : Word) : List Word → Mem
  | [] => m
  | w :: ws => (writeWords m (a + 4) ws).write32 a w

@[simp] theorem readWords_zero (m : Mem) (a : Word) : m.readWords a 0 = [] := rfl

theorem readWords_succ (m : Mem) (a : Word) (n : Nat) :
    m.readWords a (n + 1) = m.read32 a :: m.readWords (a + 4) n := rfl

@[simp] theorem length_readWords (m : Mem) (a : Word) (n : Nat) :
    (m.readWords a n).length = n := by
  induction n generalizing a with
  | zero => rfl
  | succ n ih => simp [readWords_succ, ih]

@[simp] theorem writeWords_nil (m : Mem) (a : Word) : m.writeWords a [] = m := rfl

theorem writeWords_cons (m : Mem) (a w : Word) (ws : List Word) :
    m.writeWords a (w :: ws) = (m.writeWords (a + 4) ws).write32 a w := rfl

theorem readWords_congr {m m' : Mem} {a : Word} {n : Nat} (hn : 4 * n ≤ 2 ^ 32)
    (h : ∀ b, Within a (4 * n) b → m' b = m b) : m'.readWords a n = m.readWords a n := by
  induction n generalizing a with
  | zero => rfl
  | succ n ih =>
    have hhead : m'.read32 a = m.read32 a := by
      refine read32_congr fun b hb => h b ?_
      simp only [Within] at *; omega
    have htail : m'.readWords (a + 4) n = m.readWords (a + 4) n := by
      refine ih (by omega) fun b hb => h b ?_
      simp only [Within] at *; bv_omega
    simp only [readWords_succ, hhead, htail]

theorem readWords_append (m : Mem) (a : Word) (k n : Nat) :
    m.readWords a (k + n) = m.readWords a k ++ m.readWords (a + BitVec.ofNat 32 (4 * k)) n := by
  induction k generalizing a with
  | zero => simp
  | succ k ih =>
    have haddr : a + 4 + BitVec.ofNat 32 (4 * k) = a + BitVec.ofNat 32 (4 * (k + 1)) := by
      apply BitVec.eq_of_toNat_eq; simp; omega
    rw [Nat.succ_add, readWords_succ, readWords_succ, ih, haddr, List.cons_append]

/-- A part of a list of words is read from its own address. -/
theorem readWords_slice (m : Mem) (a : Word) {k j n : Nat} (h : k + j ≤ n) :
    m.readWords (a + BitVec.ofNat 32 (4 * k)) j = ((m.readWords a n).drop k).take j := by
  obtain ⟨r, rfl⟩ := Nat.exists_eq_add_of_le h
  rw [Nat.add_assoc, readWords_append, readWords_append,
    List.drop_append_of_le_length (by simp), List.drop_of_length_le (by simp), List.nil_append,
    List.take_append_of_le_length (by simp), List.take_of_length_le (by simp)]

theorem readWords_take (m : Mem) (a : Word) {j n : Nat} (h : j ≤ n) :
    m.readWords a j = (m.readWords a n).take j := by
  have hslice := readWords_slice m a (k := 0) (j := j) (n := n) (by omega)
  simpa using hslice

theorem writeWords_not_within {m : Mem} {a b : Word} {ws : List Word}
    (h : ¬ Within a (4 * ws.length) b) (hlen : 4 * ws.length ≤ 2 ^ 32) :
    m.writeWords a ws b = m b := by
  induction ws generalizing a with
  | nil => rfl
  | cons w ws ih =>
    simp only [Within, List.length_cons] at *
    rw [writeWords_cons, write32_not_within (by simp only [Within]; omega)]
    exact ih (by bv_omega) (by omega)

/-- Where words are written, what was there before does not matter. -/
theorem writeWords_within (m m' : Mem) {a b : Word} {ws : List Word}
    (h : Within a (4 * ws.length) b) (hlen : 4 * ws.length ≤ 2 ^ 32) :
    m.writeWords a ws b = m'.writeWords a ws b := by
  induction ws generalizing a with
  | nil => exact absurd h (Nat.not_lt_zero _)
  | cons w ws ih =>
    rw [writeWords_cons, writeWords_cons]
    by_cases hb : Within a 4 b
    · unfold write32
      rw [blit_within hb, blit_within hb]
    · rw [write32_not_within hb, write32_not_within hb]
      simp only [List.length_cons] at h hlen
      refine ih ?_ (by omega)
      simp only [Within] at *
      bv_omega

/-- A byte after a write of words depends on that byte before it only. -/
theorem writeWords_congr {m m' : Mem} {a b : Word} (ws : List Word) (h : m' b = m b) :
    m'.writeWords a ws b = m.writeWords a ws b := by
  induction ws generalizing a with
  | nil => exact h
  | cons w ws ih =>
    rw [writeWords_cons, writeWords_cons, write32, write32]
    by_cases hb : Within a 4 b
    · rw [blit_within hb, blit_within hb]
    · rw [blit_not_within hb, blit_not_within hb, ih]

@[simp] theorem readWords_writeWords (m : Mem) (a : Word) (ws : List Word)
    (hlen : 4 * ws.length ≤ 2 ^ 32) : (m.writeWords a ws).readWords a ws.length = ws := by
  induction ws generalizing a with
  | nil => rfl
  | cons w ws ih =>
    simp only [List.length_cons] at hlen ⊢
    rw [readWords_succ, writeWords_cons, read32_write32]
    congr 1
    rw [readWords_congr (by omega) fun b hb => write32_not_within ?_]
    · exact ih _ (by omega)
    · simp only [Within] at *; bv_omega

/-- Block updates elsewhere do not change a list of words. -/
theorem readWords_blit_below {m : Mem} {sp : Word} {d n : Nat} {f : Nat → Byte}
    (h : d + 4 * n ≤ 2 ^ 32) :
    (m.blit (sp - BitVec.ofNat 32 d) d f).readWords sp n = m.readWords sp n := by
  refine readWords_congr (by omega) fun b hb => blit_not_within ?_
  simp only [Within] at *
  bv_omega

/-! ## Stacks -/

/-- Push the words one after another below `sp`; the last one ends up lowest. -/
def pushWords (m : Mem) (sp : Word) : List Word → Mem
  | [] => m
  | w :: ws => pushWords (m.write32 (sp - 4) w) (sp - 4) ws

/-- The stack pointer after `n` pushes. -/
def below (sp : Word) (n : Nat) : Word := sp - BitVec.ofNat 32 (4 * n)

@[simp] theorem below_zero (sp : Word) : below sp 0 = sp := by simp [below]

theorem below_succ (sp : Word) (n : Nat) : below (sp - 4) n = below sp (n + 1) := by
  simp only [below]
  apply BitVec.eq_of_toNat_eq; simp; omega

theorem below_one (sp : Word) : below sp 1 = sp - 4 := rfl

theorem below_below (sp : Word) (k n : Nat) : below (below sp k) n = below sp (k + n) := by
  simp only [below]
  apply BitVec.eq_of_toNat_eq; simp; omega

theorem below_add_four (sp : Word) (n : Nat) : below sp (n + 1) + 4 = below sp n := by
  simp only [below]
  apply BitVec.eq_of_toNat_eq; simp; omega

theorem writeWords_append (m : Mem) (a : Word) (us ws : List Word) :
    m.writeWords a (us ++ ws)
      = (m.writeWords (a + BitVec.ofNat 32 (4 * us.length)) ws).writeWords a us := by
  induction us generalizing a with
  | nil => simp
  | cons u us ih =>
    have haddr : a + 4 + BitVec.ofNat 32 (4 * us.length)
        = a + BitVec.ofNat 32 (4 * (u :: us).length) := by
      apply BitVec.eq_of_toNat_eq; simp; omega
    rw [List.cons_append, writeWords_cons, writeWords_cons, ih, haddr]

/-- Pushing a list leaves it reversed in memory, just below the old stack pointer. -/
theorem pushWords_eq (m : Mem) (sp : Word) (ws : List Word) :
    m.pushWords sp ws = m.writeWords (below sp ws.length) ws.reverse := by
  induction ws generalizing m sp with
  | nil => rfl
  | cons w ws ih =>
    have haddr : below sp (ws.length + 1) + BitVec.ofNat 32 (4 * ws.length) = sp - 4 := by
      simp only [below]
      apply BitVec.eq_of_toNat_eq; simp; omega
    rw [pushWords, ih, below_succ, List.reverse_cons, writeWords_append, List.length_reverse,
      List.length_cons, haddr, writeWords_cons, writeWords_nil]

theorem pushWords_append (m : Mem) (sp : Word) (us ws : List Word) :
    m.pushWords sp (us ++ ws) = (m.pushWords sp us).pushWords (below sp us.length) ws := by
  induction us generalizing m sp with
  | nil => simp [pushWords]
  | cons u us ih => simp only [List.cons_append, pushWords, ih, below_succ, List.length_cons]

/-- Pushing more words over ones already pushed there replaces them. -/
theorem pushWords_write32 (m : Mem) (sp v w : Word) (ws : List Word) :
    (m.write32 (sp - 4) v).pushWords sp (w :: ws) = m.pushWords sp (w :: ws) := by
  simp only [pushWords, write32_write32]

/-- What was pushed is read back, the word pushed last first. -/
theorem readWords_pushWords (m : Mem) (sp : Word) (ws : List Word)
    (hlen : 4 * ws.length ≤ 2 ^ 32) :
    (m.pushWords sp ws).readWords (below sp ws.length) ws.length = ws.reverse := by
  rw [pushWords_eq]
  simpa using readWords_writeWords m (below sp ws.length) ws.reverse (by simpa using hlen)

theorem pushWords_not_within {m : Mem} {sp b : Word} {ws : List Word}
    (h : ¬ Within (below sp ws.length) (4 * ws.length) b) (hlen : 4 * ws.length ≤ 2 ^ 32) :
    m.pushWords sp ws b = m b := by
  rw [pushWords_eq]
  exact writeWords_not_within (by simpa using h) (by simpa using hlen)

theorem pushWords_within (m m' : Mem) {sp b : Word} {ws : List Word}
    (h : Within (below sp ws.length) (4 * ws.length) b) (hlen : 4 * ws.length ≤ 2 ^ 32) :
    m.pushWords sp ws b = m'.pushWords sp ws b := by
  rw [pushWords_eq, pushWords_eq]
  exact writeWords_within m m' (by simpa using h) (by simpa using hlen)

/-- The words at and above the old stack pointer survive a push. -/
theorem readWords_pushWords_above (m : Mem) (sp : Word) (ws : List Word) {n : Nat}
    (hlen : 4 * ws.length + 4 * n ≤ 2 ^ 32) :
    (m.pushWords sp ws).readWords sp n = m.readWords sp n := by
  refine readWords_congr (by omega) fun b hb => pushWords_not_within ?_ (by omega)
  simp only [Within, below] at *
  bv_omega

/-! ## Memories that differ in places -/

/-- The two memories have the same bytes where `pub` holds. -/
def Agree (pub : Word → Prop) (m m' : Mem) : Prop := ∀ b, pub b → m' b = m b

theorem Agree.refl (pub : Word → Prop) (m : Mem) : Agree pub m m := fun _ _ => rfl

/-- Any other byte can be anything. -/
theorem agree_update {pub : Word → Prop} (m : Mem) {b : Word} (x : Byte) (h : ¬ pub b) :
    Agree pub m (Function.update m b x) := by
  intro c hc
  refine Function.update_of_ne ?_ _ _
  rintro rfl
  exact h hc

end Mem

end X86
