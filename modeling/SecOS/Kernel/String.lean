-- SUMMARY: The string functions of `string.h`, and what they leave in memory and return.
import SecOS.X86.Cpu

/-!
# String functions

`memset` and `memcpy` of `string.h`: a `rep` instruction over words for the
quotient of the size by four, then one over bytes for the remainder, each between
saving the flags, `cld`, and loading the flags back. `strchr` reads off its result
where `repnz scasb` has stopped.
-/

namespace SecOS

open X86

/-! ## Repeated string instructions -/

/-- EDI and ESI move up, or down when the direction flag is set. -/
def strStep (df : Bool) (a n : Word) : Word := if df then a - n else a + n

/-- `rep stosl` with ECX = `cnt`. -/
def repStosl (df : Bool) (m : Mem) (edi eax : Word) : Nat → Mem
  | 0 => m
  | cnt + 1 => repStosl df (m.write32 edi eax) (strStep df edi 4) eax cnt

def repStosb (df : Bool) (m : Mem) (edi : Word) (al : Byte) : Nat → Mem
  | 0 => m
  | cnt + 1 => repStosb df (m.blit edi 1 fun _ => al) (strStep df edi 1) al cnt

def repMovsl (df : Bool) (m : Mem) (edi esi : Word) : Nat → Mem
  | 0 => m
  | cnt + 1 => repMovsl df (m.write32 edi (m.read32 esi)) (strStep df edi 4) (strStep df esi 4) cnt

def repMovsb (df : Bool) (m : Mem) (edi esi : Word) : Nat → Mem
  | 0 => m
  | cnt + 1 =>
    repMovsb df (m.blit edi 1 fun _ => m esi) (strStep df edi 1) (strStep df esi 1) cnt

/-- `repnz scasb`: EDI and ECX when it stops, which it does past the first byte equal
to AL or with the count used up. -/
def repnzScasb (df : Bool) (m : Mem) (edi : Word) (al : Byte) : Nat → Word × Word
  | 0 => (edi, 0)
  | cnt + 1 =>
    if m edi = al then (strStep df edi 1, BitVec.ofNat 32 cnt)
    else repnzScasb df m (strStep df edi 1) al cnt

def eflagsDf (flags : Word) : Bool := flags.getLsbD 10

/-- `__fix_str_dir`: the operation runs after `cld`, and the saved flags come back. -/
def fixStrDir {α : Type} (op : Bool → α) (flags : Word) : α × Word :=
  let save := flags
  let flags := flags &&& ~~~0x400#32
  (op (eflagsDf flags), save)

/-- A byte repeated over a word. -/
def replicateByteOnLong (c : Byte) : Word := c ++ c ++ c ++ c

def memset8 (m : Mem) (flags d : Word) (v : Byte) (t : Word) : Mem × Word :=
  fixStrDir (fun df => repStosb df m d v t.toNat) flags

def memcpy8 (m : Mem) (flags d s t : Word) : Mem × Word :=
  fixStrDir (fun df => repMovsb df m d s t.toNat) flags

/-- EDI and ECX, then the flags. -/
def memchr8 (m : Mem) (flags s : Word) (v : Byte) (l : Word) : (Word × Word) × Word :=
  fixStrDir (fun df => repnzScasb df m s v l.toNat) flags

def memset32 (m : Mem) (flags d v t : Word) : Mem × Word :=
  fixStrDir (fun df => repStosl df m d v t.toNat) flags

def memcpy32 (m : Mem) (flags d s t : Word) : Mem × Word :=
  fixStrDir (fun df => repMovsl df m d s t.toNat) flags

/-- `__divrm`: the quotient and the remainder of a `div` with EDX clear. -/
def divrm (a b : Word) : Word × Word := (a / b, a % b)

def sizeofLong : Word := 4

/-! ## memset and memcpy -/

/-- The returned pointer, the memory and the flags. -/
def memset (m : Mem) (flags dst : Word) (c : Byte) (size : Word) : Word × Mem × Word :=
  if size = 0 then (dst, m, flags) else
  let (cnt, rm) := divrm size sizeofLong
  let dloc := dst
  let (m, flags, dloc) :=
    if cnt ≠ 0 then
      let lc := replicateByteOnLong c
      let (m, flags) := memset32 m flags dloc lc cnt
      (m, flags, dloc + cnt * sizeofLong)
    else (m, flags, dloc)
  let (m, flags) := if rm ≠ 0 then memset8 m flags dloc c rm else (m, flags)
  (dst, m, flags)

def memcpy (m : Mem) (flags dst src size : Word) : Word × Mem × Word :=
  if size = 0 then (dst, m, flags) else
  let (cnt, rm) := divrm size sizeofLong
  let dloc := dst
  let sloc := src
  let (m, flags, dloc, sloc) :=
    if cnt ≠ 0 then
      let (m, flags) := memcpy32 m flags dloc sloc cnt
      (m, flags, dloc + cnt * sizeofLong, sloc + cnt * sizeofLong)
    else (m, flags, dloc, sloc)
  let (m, flags) := if rm ≠ 0 then memcpy8 m flags dloc sloc rm else (m, flags)
  (dst, m, flags)

/-! ## strchr -/

/-- The returned pointer and the flags. -/
def strchr (m : Mem) (flags str len : Word) (c : Byte) : Word × Word :=
  let s := str
  let ((d, len), flags) := memchr8 m flags s c len
  if len = 0 then (0, flags) else (d - 1, flags)

/-! ## The direction flag -/

section Direction

@[simp] theorem fixStrDir_eq {α : Type} (op : Bool → α) (flags : Word) :
    fixStrDir op flags = (op false, flags) := by
  have h : eflagsDf (flags &&& ~~~0x400#32) = false := by simp [eflagsDf]
  unfold fixStrDir
  simp only [h]

@[simp] theorem strStep_up (a n : Word) : strStep false a n = a + n := rfl

end Direction

/-! ## Storing -/

section Storing

@[simp] theorem byteOf_replicateByteOnLong (c : Byte) {k : Nat} (hk : k < 4) :
    Mem.byteOf (replicateByteOnLong c) k = c :=
  Mem.byteOf_of_append (f := fun _ => c) hk

theorem repStosb_eq (m : Mem) (edi : Word) (c : Byte) (cnt : Nat) (h : cnt ≤ 2 ^ 32) :
    repStosb false m edi c cnt = m.blit edi cnt fun _ => c := by
  induction cnt generalizing m edi with
  | zero => simp [repStosb]
  | succ cnt ih =>
    unfold repStosb
    rw [strStep_up, ih _ _ (by omega), Nat.add_comm]
    exact Mem.blit_blit m edi (k := 1) (n := cnt) _ (by omega)

/-- Storing words upwards fills the bytes they span and no others. -/
theorem repStosl_eq (m : Mem) (edi : Word) (c : Byte) (cnt : Nat) (h : 4 * cnt ≤ 2 ^ 32) :
    repStosl false m edi (replicateByteOnLong c) cnt = m.blit edi (4 * cnt) fun _ => c := by
  induction cnt generalizing m edi with
  | zero => simp [repStosl]
  | succ cnt ih =>
    have hword : m.write32 edi (replicateByteOnLong c) = m.blit edi 4 fun _ => c :=
      Mem.blit_congr_fun fun i hi => byteOf_replicateByteOnLong c hi
    unfold repStosl
    rw [strStep_up, ih _ _ (by omega), hword, Nat.mul_succ, Nat.add_comm]
    exact Mem.blit_blit m edi (k := 4) (n := 4 * cnt) _ (by omega)

end Storing

/-! ## Copying -/

section Copying

/-- Going up, a copy reads every byte of the source before it overwrites it. -/
def Ahead (dst src : Word) (n : Nat) : Prop :=
  ∀ j i, j < i → i < n → src + BitVec.ofNat 32 i ≠ dst + BitVec.ofNat 32 j

theorem Ahead.mono {dst src : Word} {k n : Nat} (h : Ahead dst src n) (hk : k ≤ n) :
    Ahead dst src k :=
  fun j i hj hi => h j i hj (by omega)

/-- Past the first `k` bytes the rest is copied in the same way. -/
theorem Ahead.drop {dst src : Word} {k n : Nat} (h : Ahead dst src (k + n)) :
    Ahead (dst + BitVec.ofNat 32 k) (src + BitVec.ofNat 32 k) n := by
  intro j i hj hi heq
  apply h (k + j) (k + i) (by omega) (by omega)
  bv_omega

/-- The bytes past the first `k` of the source survive the copy of these. -/
theorem Ahead.unread {m : Mem} {dst src : Word} {k n i : Nat} {f : Nat → Byte}
    (h : Ahead dst src (k + n)) (hi : i < n) :
    m.blit dst k f (src + BitVec.ofNat 32 k + BitVec.ofNat 32 i)
      = m (src + BitVec.ofNat 32 (k + i)) := by
  have haddr : src + BitVec.ofNat 32 k + BitVec.ofNat 32 i = src + BitVec.ofNat 32 (k + i) := by
    bv_omega
  rw [haddr]
  apply Mem.blit_not_within
  intro hin
  apply h (src + BitVec.ofNat 32 (k + i) - dst).toNat (k + i)
  · simp only [Within] at hin; omega
  · omega
  · bv_omega

/-- Without wrapping, a copy downwards or between disjoint ranges stays ahead. -/
theorem ahead_of_le {dst src : Word} {n : Nat} (hdst : dst.toNat + n ≤ 2 ^ 32)
    (hsrc : src.toNat + n ≤ 2 ^ 32) (h : dst.toNat ≤ src.toNat ∨ src.toNat + n ≤ dst.toNat) :
    Ahead dst src n := by
  intro j i hj hi heq
  have haddr := congrArg BitVec.toNat heq
  simp only [BitVec.toNat_add, BitVec.toNat_ofNat] at haddr
  omega

/-- Copying `k` bytes and then `n` more copies `k + n` bytes. -/
theorem blit_copy {m : Mem} {dst src : Word} {k n : Nat} (hlen : k + n ≤ 2 ^ 32)
    (h : Ahead dst src (k + n)) :
    let m' := m.blit dst k fun i => m (src + BitVec.ofNat 32 i)
    m'.blit (dst + BitVec.ofNat 32 k) n
        (fun i => m' (src + BitVec.ofNat 32 k + BitVec.ofNat 32 i))
      = m.blit dst (k + n) fun i => m (src + BitVec.ofNat 32 i) := by
  intro m'
  rw [Mem.blit_congr_fun fun i hi => h.unread hi]
  exact Mem.blit_blit m dst (fun i => m (src + BitVec.ofNat 32 i)) hlen

theorem repMovsb_eq (m : Mem) {edi esi : Word} {cnt : Nat} (hlen : cnt ≤ 2 ^ 32)
    (h : Ahead edi esi cnt) :
    repMovsb false m edi esi cnt = m.blit edi cnt fun i => m (esi + BitVec.ofNat 32 i) := by
  induction cnt generalizing m edi esi with
  | zero => simp [repMovsb]
  | succ cnt ih =>
    rw [Nat.add_comm] at h hlen
    have hbyte : (m.blit edi 1 fun _ => m esi)
        = m.blit edi 1 fun i => m (esi + BitVec.ofNat 32 i) := by
      refine Mem.blit_congr_fun fun i hi => ?_
      obtain rfl : i = 0 := by omega
      simp
    have hrest : Ahead (edi + 1) (esi + 1) cnt := h.drop
    unfold repMovsb
    rw [strStep_up, strStep_up, ih _ (by omega) hrest, hbyte, Nat.add_comm cnt]
    exact blit_copy hlen h

theorem repMovsl_eq (m : Mem) {edi esi : Word} {cnt : Nat} (hlen : 4 * cnt ≤ 2 ^ 32)
    (h : Ahead edi esi (4 * cnt)) :
    repMovsl false m edi esi cnt = m.blit edi (4 * cnt) fun i => m (esi + BitVec.ofNat 32 i) := by
  induction cnt generalizing m edi esi with
  | zero => simp [repMovsl]
  | succ cnt ih =>
    rw [Nat.mul_succ, Nat.add_comm] at h hlen
    have hrest : Ahead (edi + 4) (esi + 4) (4 * cnt) := h.drop
    unfold repMovsl
    rw [strStep_up, strStep_up, ih _ (by omega) hrest, Mem.write32_read32, Nat.mul_succ,
      Nat.add_comm (4 * cnt)]
    exact blit_copy hlen h

theorem repMovsl_add (m : Mem) (edi esi : Word) (k n : Nat) :
    repMovsl false m edi esi (k + n)
      = repMovsl false (repMovsl false m edi esi k) (edi + BitVec.ofNat 32 (4 * k))
          (esi + BitVec.ofNat 32 (4 * k)) n := by
  induction k generalizing m edi esi with
  | zero => simp [repMovsl]
  | succ k ih =>
    have haddr (a : Word) :
        a + 4 + BitVec.ofNat 32 (4 * k) = a + BitVec.ofNat 32 (4 * (k + 1)) := by
      bv_omega
    have hstep (cnt : Nat) : repMovsl false m edi esi (cnt + 1)
        = repMovsl false (m.write32 edi (m.read32 esi)) (edi + 4) (esi + 4) cnt := rfl
    rw [Nat.succ_add, hstep, hstep, ih, haddr, haddr]

/-- A copy, overlapping or not, writes nothing outside its destination. -/
theorem repMovsl_not_within {m : Mem} {edi esi b : Word} {cnt : Nat} (hlen : 4 * cnt ≤ 2 ^ 32)
    (h : ¬ Within edi (4 * cnt) b) : repMovsl false m edi esi cnt b = m b := by
  induction cnt generalizing m edi esi with
  | zero => rfl
  | succ cnt ih =>
    have hhead : ¬ Within edi 4 b := by simp only [Within] at *; omega
    have hrest : ¬ Within (edi + 4) (4 * cnt) b := by simp only [Within] at *; bv_omega
    unfold repMovsl
    rw [strStep_up, strStep_up, ih (by omega) hrest, Mem.write32_not_within hhead]

/-- A copy, overlapping or not, changes nothing exactly when its source and its
destination are equal to begin with. -/
theorem repMovsl_eq_self_iff {m : Mem} {edi esi : Word} {cnt : Nat} (hlen : 4 * cnt ≤ 2 ^ 32) :
    repMovsl false m edi esi cnt = m ↔
      ∀ i < 4 * cnt, m (edi + BitVec.ofNat 32 i) = m (esi + BitVec.ofNat 32 i) := by
  induction cnt generalizing edi esi with
  | zero => simp [repMovsl]
  | succ cnt ih =>
    have haddr (a : Word) (i : Nat) :
        a + 4 + BitVec.ofNat 32 i = a + BitVec.ofNat 32 (4 + i) := by bv_omega
    have hword := Mem.write32_read32 m m edi esi
    unfold repMovsl
    rw [strStep_up, strStep_up]
    constructor
    · intro h
      -- The bytes of the first word are not written again, so they were right already.
      have hfirst : m.write32 edi (m.read32 esi) = m := by
        funext b
        by_cases hb : Within edi 4 b
        · have hrest : ¬ Within (edi + 4) (4 * cnt) b := by simp only [Within] at *; bv_omega
          have hkept : repMovsl false (m.write32 edi (m.read32 esi)) (edi + 4) (esi + 4) cnt b
              = m.write32 edi (m.read32 esi) b := repMovsl_not_within (by omega) hrest
          rw [← hkept, h]
        · exact Mem.write32_not_within hb
      rw [hfirst] at h
      intro i hi
      by_cases hhead : i < 4
      · have hi' := congrFun hfirst (edi + BitVec.ofNat 32 i)
        rw [hword, Mem.blit_add hhead (by omega)] at hi'
        exact hi'.symm
      · have hi' := (ih (by omega)).mp h (i - 4) (by omega)
        rw [haddr, haddr, Nat.add_sub_cancel' (by omega)] at hi'
        exact hi'
    · intro h
      have hfirst : m.write32 edi (m.read32 esi) = m := by
        rw [hword]
        exact (Mem.blit_eq_self_iff (by omega)).mpr fun i hi => h i (by omega)
      rw [hfirst]
      refine (ih (by omega)).mpr fun i hi => ?_
      rw [haddr, haddr]
      exact h _ (by omega)

end Copying

/-! ## What memset and memcpy do -/

section Split

theorem divrm_split (size : Word) :
    4 * (divrm size sizeofLong).1.toNat + (divrm size sizeofLong).2.toNat = size.toNat := by
  simp only [divrm, sizeofLong, BitVec.toNat_udiv, BitVec.toNat_umod]
  exact Nat.div_add_mod size.toNat 4

theorem toNat_divrm_mul (size : Word) :
    BitVec.ofNat 32 (4 * (divrm size sizeofLong).1.toNat)
      = (divrm size sizeofLong).1 * sizeofLong := by
  apply BitVec.eq_of_toNat_eq
  simp [sizeofLong, Nat.mul_comm]

/-- `memset` fills the bytes it was given, whatever the flags. -/
theorem memset_eq (m : Mem) (flags dst : Word) (c : Byte) (size : Word) :
    memset m flags dst c size = (dst, m.blit dst size.toNat fun _ => c, flags) := by
  by_cases hsize : size = 0
  · simp [memset, hsize]
  have hsplit := divrm_split size
  have haddr := toNat_divrm_mul size
  have hbound := size.isLt
  simp only [memset, hsize, if_false]
  generalize (divrm size sizeofLong).1 = cnt at *
  generalize (divrm size sizeofLong).2 = rm at *
  have hwords : (if cnt ≠ 0 then
      ((memset32 m flags dst (replicateByteOnLong c) cnt).1,
        (memset32 m flags dst (replicateByteOnLong c) cnt).2, dst + cnt * sizeofLong)
      else (m, flags, dst))
      = (m.blit dst (4 * cnt.toNat) fun _ => c, flags, dst + BitVec.ofNat 32 (4 * cnt.toNat)) := by
    by_cases hcnt : cnt = 0
    · simp [hcnt]
    · rw [if_pos hcnt, memset32, fixStrDir_eq, repStosl_eq _ _ _ _ (by omega), haddr]
  have hbytes (m' : Mem) (d : Word) : (if rm ≠ 0 then memset8 m' flags d c rm else (m', flags))
      = (m'.blit d rm.toNat fun _ => c, flags) := by
    by_cases hrm : rm = 0
    · simp [hrm]
    · rw [if_pos hrm, memset8, fixStrDir_eq, repStosb_eq _ _ _ _ (by omega)]
  rw [hwords]
  simp only [hbytes]
  rw [← hsplit, ← Mem.blit_blit m dst (k := 4 * cnt.toNat) (n := rm.toNat) (fun _ => c) (by omega)]

/-- `memcpy` moves the bytes it was given when it stays ahead of its own writes. -/
theorem memcpy_eq (m : Mem) (flags : Word) {dst src size : Word}
    (h : Ahead dst src size.toNat) :
    memcpy m flags dst src size
      = (dst, m.blit dst size.toNat fun i => m (src + BitVec.ofNat 32 i), flags) := by
  by_cases hsize : size = 0
  · simp [memcpy, hsize]
  have hsplit := divrm_split size
  have haddr := toNat_divrm_mul size
  have hbound := size.isLt
  simp only [memcpy, hsize, if_false]
  generalize (divrm size sizeofLong).1 = cnt at *
  generalize (divrm size sizeofLong).2 = rm at *
  rw [← hsplit] at h ⊢
  have hwords : (if cnt ≠ 0 then
      ((memcpy32 m flags dst src cnt).1, (memcpy32 m flags dst src cnt).2,
        dst + cnt * sizeofLong, src + cnt * sizeofLong)
      else (m, flags, dst, src))
      = (m.blit dst (4 * cnt.toNat) fun i => m (src + BitVec.ofNat 32 i), flags,
          dst + BitVec.ofNat 32 (4 * cnt.toNat), src + BitVec.ofNat 32 (4 * cnt.toNat)) := by
    by_cases hcnt : cnt = 0
    · simp [hcnt]
    · rw [if_pos hcnt, memcpy32, fixStrDir_eq,
        repMovsl_eq _ (by omega) (h.mono (Nat.le_add_right ..)), haddr]
  have hbytes (m' : Mem) : (if rm ≠ 0 then
      memcpy8 m' flags (dst + BitVec.ofNat 32 (4 * cnt.toNat))
        (src + BitVec.ofNat 32 (4 * cnt.toNat)) rm
      else (m', flags))
      = (m'.blit (dst + BitVec.ofNat 32 (4 * cnt.toNat)) rm.toNat
          fun i => m' (src + BitVec.ofNat 32 (4 * cnt.toNat) + BitVec.ofNat 32 i), flags) := by
    by_cases hrm : rm = 0
    · simp [hrm]
    · rw [if_pos hrm, memcpy8, fixStrDir_eq, repMovsb_eq _ (by omega) h.drop]
  rw [hwords]
  simp only [hbytes]
  rw [blit_copy (by omega) h]

end Split

/-! ## The bytewise definitions -/

section Bytewise

/-- Address `b` is one of the `n` from `a` on, which do not wrap. -/
def InRange (a : Word) (n : Nat) (b : Word) : Prop := a.toNat ≤ b.toNat ∧ b.toNat < a.toNat + n

/-- The `n` bytes from `dst` on became `c`, and no other byte changed. -/
structure Filled (m m' : Mem) (dst : Word) (c : Byte) (n : Nat) : Prop where
  inside : ∀ b, InRange dst n b → m' b = c
  outside : ∀ b, ¬ InRange dst n b → m' b = m b

/-- The `n` bytes from `dst` on became what those from `src` on were, and no other byte
changed. -/
structure Moved (m m' : Mem) (dst src : Word) (n : Nat) : Prop where
  inside : ∀ i < n, m' (dst + BitVec.ofNat 32 i) = m (src + BitVec.ofNat 32 i)
  outside : ∀ b, ¬ InRange dst n b → m' b = m b

theorem within_iff_inRange {a : Word} {n : Nat} (h : a.toNat + n ≤ 2 ^ 32) (b : Word) :
    Within a n b ↔ InRange a n b := by
  simp only [Within, InRange]
  bv_omega

theorem filled_iff_eq_blit {m m' : Mem} {dst : Word} {c : Byte} {n : Nat}
    (h : dst.toNat + n ≤ 2 ^ 32) : Filled m m' dst c n ↔ m' = m.blit dst n fun _ => c := by
  constructor
  · intro hfilled
    funext b
    by_cases hb : Within dst n b
    · rw [Mem.blit_within hb, hfilled.inside b ((within_iff_inRange h b).mp hb)]
    · rw [Mem.blit_not_within hb, hfilled.outside b (mt (within_iff_inRange h b).mpr hb)]
  · rintro rfl
    constructor
    · intro b hb
      exact Mem.blit_within ((within_iff_inRange h b).mpr hb)
    · intro b hb
      exact Mem.blit_not_within (mt (within_iff_inRange h b).mp hb)

theorem moved_iff_eq_blit {m m' : Mem} {dst src : Word} {n : Nat} (h : dst.toNat + n ≤ 2 ^ 32) :
    Moved m m' dst src n ↔ m' = m.blit dst n fun i => m (src + BitVec.ofNat 32 i) := by
  constructor
  · intro hmoved
    funext b
    by_cases hb : Within dst n b
    · rw [Mem.blit_within hb, ← hmoved.inside _ hb]
      congr 1
      bv_omega
    · rw [Mem.blit_not_within hb, hmoved.outside b (mt (within_iff_inRange h b).mpr hb)]
  · rintro rfl
    constructor
    · intro i hi
      exact Mem.blit_add hi (by omega)
    · intro b hb
      exact Mem.blit_not_within (mt (within_iff_inRange h b).mp hb)

/-- Filling and moving by words first and by bytes for the rest comes to the same as
filling and moving byte by byte; overlapping ranges may be moved downwards. -/
theorem memset_memcpy_bytewise (m : Mem) (flags dst src : Word) (c : Byte) (size : Word)
    (hdst : dst.toNat + size.toNat ≤ 2 ^ 32) (hsrc : src.toNat + size.toNat ≤ 2 ^ 32) :
    (∃ m', memset m flags dst c size = (dst, m', flags) ∧ Filled m m' dst c size.toNat) ∧
    (dst.toNat ≤ src.toNat ∨ src.toNat + size.toNat ≤ dst.toNat →
      ∃ m', memcpy m flags dst src size = (dst, m', flags) ∧ Moved m m' dst src size.toNat) := by
  constructor
  · exact ⟨_, memset_eq m flags dst c size, (filled_iff_eq_blit hdst).mpr rfl⟩
  · intro hpos
    exact ⟨_, memcpy_eq m flags (ahead_of_le hdst hsrc hpos), (moved_iff_eq_blit hdst).mpr rfl⟩

/-- Seven bytes moved down by two, with the direction flag set. -/
theorem memset_memcpy_bytewise_sample :
    (∃ m', memset (fun b => b.setWidth 8) 0x402 0x1000 7 7 = (0x1000, m', 0x402) ∧
      Filled (fun b => b.setWidth 8) m' 0x1000 7 7) ∧
    ∃ m', memcpy (fun b => b.setWidth 8) 0x402 0x1000 0x1002 7 = (0x1000, m', 0x402) ∧
      Moved (fun b => b.setWidth 8) m' 0x1000 0x1002 7 := by
  have h := memset_memcpy_bytewise (fun b => b.setWidth 8) 0x402 0x1000 0x1002 7 7 (by decide)
    (by decide)
  exact ⟨h.1, h.2 (Or.inl (by decide))⟩

end Bytewise

/-! ## Searching -/

section Searching

/-- Byte `i` from `a` on is the first one equal to `c`. -/
def FirstAt (m : Mem) (a : Word) (c : Byte) (i : Nat) : Prop :=
  m (a + BitVec.ofNat 32 i) = c ∧ ∀ j < i, m (a + BitVec.ofNat 32 j) ≠ c

/-- None of the `n` bytes from `a` on is equal to `c`. -/
def Absent (m : Mem) (a : Word) (c : Byte) (n : Nat) : Prop :=
  ∀ i < n, m (a + BitVec.ofNat 32 i) ≠ c

theorem FirstAt.not_absent {m : Mem} {a : Word} {c : Byte} {i n : Nat} (h : FirstAt m a c i)
    (hi : i < n) : ¬ Absent m a c n :=
  fun habs => habs i hi h.1

theorem absent_or_firstAt (m : Mem) (a : Word) (c : Byte) (n : Nat) :
    Absent m a c n ∨ ∃ i < n, FirstAt m a c i := by
  induction n with
  | zero => exact Or.inl fun i hi => absurd hi (Nat.not_lt_zero i)
  | succ n ih =>
    rcases ih with habs | ⟨i, hi, hfirst⟩
    · by_cases hc : m (a + BitVec.ofNat 32 n) = c
      · exact Or.inr ⟨n, Nat.lt_succ_self n, hc, habs⟩
      · refine Or.inl fun i hi => ?_
        rcases Nat.lt_succ_iff_lt_or_eq.mp hi with hlt | rfl
        · exact habs i hlt
        · exact hc
    · exact Or.inr ⟨i, Nat.lt_succ_of_lt hi, hfirst⟩

theorem repnzScasb_of_absent {m : Mem} {edi : Word} {c : Byte} {cnt : Nat}
    (h : Absent m edi c cnt) :
    repnzScasb false m edi c cnt = (edi + BitVec.ofNat 32 cnt, 0) := by
  induction cnt generalizing edi with
  | zero => simp [repnzScasb]
  | succ cnt ih =>
    have hhead : m edi ≠ c := by simpa using h 0 (Nat.succ_pos cnt)
    have haddr (i : Nat) : edi + 1 + BitVec.ofNat 32 i = edi + BitVec.ofNat 32 (i + 1) := by
      bv_omega
    have hrest : Absent m (edi + 1) c cnt := by
      intro i hi
      rw [haddr]
      exact h (i + 1) (by omega)
    unfold repnzScasb
    rw [if_neg hhead, strStep_up, ih hrest, haddr]

theorem repnzScasb_of_firstAt {m : Mem} {edi : Word} {c : Byte} {i cnt : Nat}
    (h : FirstAt m edi c i) (hi : i < cnt) :
    repnzScasb false m edi c cnt
      = (edi + BitVec.ofNat 32 i + 1, BitVec.ofNat 32 (cnt - 1 - i)) := by
  induction i generalizing edi cnt with
  | zero =>
    obtain ⟨cnt, rfl⟩ := Nat.exists_eq_succ_of_ne_zero hi.ne'
    have hhead : m edi = c := by simpa using h.1
    unfold repnzScasb
    rw [if_pos hhead]
    simp
  | succ i ih =>
    obtain ⟨cnt, rfl⟩ := Nat.exists_eq_succ_of_ne_zero (Nat.ne_of_gt (Nat.zero_lt_of_lt hi))
    have hhead : m edi ≠ c := by simpa using h.2 0 (Nat.succ_pos i)
    have haddr (j : Nat) : edi + 1 + BitVec.ofNat 32 j = edi + BitVec.ofNat 32 (j + 1) := by
      bv_omega
    have hrest : FirstAt m (edi + 1) c i := by
      constructor
      · rw [haddr]
        exact h.1
      · intro j hj
        rw [haddr]
        exact h.2 (j + 1) (by omega)
    unfold repnzScasb
    rw [if_neg hhead, strStep_up, ih hrest (by omega), haddr, show cnt + 1 - 1 - (i + 1)
      = cnt - 1 - i by omega]

theorem strchr_of_absent {m : Mem} {flags str len : Word} {c : Byte}
    (h : Absent m str c len.toNat) : strchr m flags str len c = (0, flags) := by
  unfold strchr memchr8
  simp only [fixStrDir_eq, repnzScasb_of_absent h, if_true]

/-- ECX is zero past the last byte, found or not, and only ECX is looked at. -/
theorem strchr_of_firstAt {m : Mem} {flags str len : Word} {c : Byte} {i : Nat}
    (h : FirstAt m str c i) (hi : i < len.toNat) :
    strchr m flags str len c
      = (if i + 1 = len.toNat then 0 else str + BitVec.ofNat 32 i, flags) := by
  have hlen := len.isLt
  have hzero : BitVec.ofNat 32 (len.toNat - 1 - i) = 0 ↔ i + 1 = len.toNat := by bv_omega
  unfold strchr memchr8
  simp only [fixStrDir_eq, repnzScasb_of_firstAt h hi, hzero]
  split
  · rfl
  · simp

/-- What a bounded search returns: the first occurrence, and no pointer only when there
is none. -/
def SearchesWithin (m : Mem) (str : Word) (len : Nat) (c : Byte) (r : Word) : Prop :=
  (∀ i < len, FirstAt m str c i → r = str + BitVec.ofNat 32 i) ∧ (r = 0 ↔ Absent m str c len)

/-- `strchr` fails on a character it first finds in the last byte, and cannot tell one
found at address zero from none. -/
theorem searchesWithin_strchr_iff (m : Mem) (flags str len : Word) (c : Byte) :
    SearchesWithin m str len.toNat c (strchr m flags str len c).1 ↔
      ∀ i < len.toNat, FirstAt m str c i →
        i + 1 ≠ len.toNat ∧ str + BitVec.ofNat 32 i ≠ 0 := by
  constructor
  · intro h i hi hfirst
    have hnull := mt h.2.mp (hfirst.not_absent hi)
    constructor
    · intro hlast
      apply hnull
      rw [strchr_of_firstAt hfirst hi, if_pos hlast]
    · rw [← h.1 i hi hfirst]
      exact hnull
  · intro h
    rcases absent_or_firstAt m str c len.toNat with habs | ⟨i, hi, hfirst⟩
    · rw [strchr_of_absent habs]
      exact ⟨fun i hi hfirst => absurd habs (hfirst.not_absent hi), fun _ => habs, fun _ => rfl⟩
    · have hres : strchr m flags str len c = _ := strchr_of_firstAt hfirst hi
      rw [if_neg (h i hi hfirst).1] at hres
      rw [hres]
      constructor
      · intro j hj hfirst'
        rcases Nat.lt_trichotomy i j with hlt | rfl | hlt
        · exact absurd hfirst.1 (hfirst'.2 i hlt)
        · rfl
        · exact absurd hfirst'.1 (hfirst.2 j hlt)
      · exact iff_of_false (h i hi hfirst).2 (hfirst.not_absent hi)

/-- One byte, and it is the one looked for. -/
theorem not_searchesWithin_last :
    ¬ SearchesWithin (fun _ => 0x41) 0x1000 1 0x41 (strchr (fun _ => 0x41) 2 0x1000 1 0x41).1 := by
  intro h
  have hnull : (strchr (fun _ => 0x41) 2 0x1000 1 0x41).1 = 0 := by decide
  exact h.2.mp hnull 0 (by decide) rfl

end Searching

end SecOS
