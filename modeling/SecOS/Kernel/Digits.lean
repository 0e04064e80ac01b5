-- SUMMARY: What the numeric helpers of the formatter append: canonical decimal and hexadecimal numerals, and hexadecimal ones of a fixed width.
import SecOS.Base.Numeral
import SecOS.Kernel.Print

/-!
# Digits

Each helper takes digits off the low end of a value, keeps them in an array on the
stack, and appends the array backwards. The texts below are what comes out; reading
them back is independent of how they were made.
-/

namespace SecOS

open X86

variable {buf : Buffer Byte} {len room : Nat} {value v : BitVec 64} {precision : Word}
variable {rep s : List Byte} {b n d : Nat}

/-! ## Texts -/

/-- The character of a digit. -/
def symbol (d : Nat) : Byte := chr d.digitChar

/-- The numeral of `n` in base `b`. -/
def numeralText (b n : Nat) : List Byte := (Nat.toDigits b n).map chr

theorem numeralText_eq (hb : 1 < b) (n : Nat) :
    numeralText b n = (Numeral.canonical b n).map symbol := by
  unfold numeralText
  rw [Numeral.toDigits_eq_map hb, List.map_map]
  rfl

/-! ## Reading -/

/-- A digit up to `f`. -/
def digitOf (c : Byte) : Option Nat :=
  if chr '0' ≤ c ∧ c ≤ chr '9' then some (c.toNat - 48)
  else if chr 'a' ≤ c ∧ c ≤ chr 'f' then some (c.toNat - 87)
  else none

/-- The number that a text of digits stands for. -/
def readNumeral (b : Nat) (s : List Byte) : Option Nat := do
  let ds ← s.mapM digitOf
  if ds ≠ [] ∧ ∀ d ∈ ds, d < b then some (Numeral.value b ds) else none

def readDecimal (s : List Byte) : Option Int :=
  if s.head? = some (chr '-') then (readNumeral 10 s.tail).map fun n : Nat => -(n : Int)
  else (readNumeral 10 s).map fun n : Nat => (n : Int)

theorem digitOf_symbol (h : d < 16) : digitOf (symbol d) = some d := by
  have hall : ∀ d < 16, digitOf (symbol d) = some d := by decide
  exact hall d h

theorem symbol_mem_hextable (h : d < 16) : symbol d ∈ hextable := by
  have hall : ∀ d < 16, symbol d ∈ hextable := by decide
  exact hall d h

theorem symbol_eq_zero (h : d < 16) : symbol d = chr '0' ↔ d = 0 := by
  have hall : ∀ d < 16, symbol d = chr '0' ↔ d = 0 := by decide
  exact hall d h

theorem isDigit_symbol (h : d < 10) : chr '0' ≤ symbol d ∧ symbol d ≤ chr '9' := by
  have hall : ∀ d < 10, chr '0' ≤ symbol d ∧ symbol d ≤ chr '9' := by decide
  exact hall d h

theorem mapM_digitOf {ds : List Nat} (h : ∀ d ∈ ds, d < 16) :
    (ds.map symbol).mapM digitOf = some ds := by
  induction ds with
  | nil => rfl
  | cons d ds ih =>
    rw [List.map_cons, List.mapM_cons, digitOf_symbol (h d (List.mem_cons_self ..)),
      ih fun d' hd => h d' (List.mem_cons_of_mem _ hd)]
    rfl

theorem readNumeral_map_symbol {ds : List Nat} (hb : b ≤ 16) (hne : ds ≠ [])
    (h : ∀ d ∈ ds, d < b) : readNumeral b (ds.map symbol) = some (Numeral.value b ds) := by
  unfold readNumeral
  rw [mapM_digitOf fun d hd => Nat.lt_of_lt_of_le (h d hd) hb, Option.bind_eq_bind,
    Option.bind_some, if_pos ⟨hne, h⟩]

theorem readNumeral_numeralText (hb : 1 < b) (hb' : b ≤ 16) (n : Nat) :
    readNumeral b (numeralText b n) = some n := by
  rw [numeralText_eq hb, readNumeral_map_symbol hb' Numeral.canonical_ne_nil
    fun d hd => Numeral.lt_of_mem_canonical hb hd, Numeral.value_canonical]

theorem numeralText_ne_nil : numeralText b n ≠ [] := by
  unfold numeralText
  simp

/-- Only zero starts with a zero. -/
theorem head?_numeralText (hb : 1 < b) (hb' : b ≤ 16)
    (h : (numeralText b n).head? = some (chr '0')) : numeralText b n = [chr '0'] := by
  rw [numeralText_eq hb] at h ⊢
  rw [List.head?_map, Option.map_eq_some_iff] at h
  obtain ⟨d, hd, hsymbol⟩ := h
  have hlt : d < b := Numeral.lt_of_mem_canonical hb (List.mem_of_mem_head? hd)
  rw [symbol_eq_zero (by omega)] at hsymbol
  subst hsymbol
  rw [Numeral.noLeadingZero_canonical hd]
  rfl

theorem mem_numeralText_ten {c : Byte} (h : c ∈ numeralText 10 n) :
    chr '0' ≤ c ∧ c ≤ chr '9' := by
  rw [numeralText_eq (by decide), List.mem_map] at h
  obtain ⟨d, hd, rfl⟩ := h
  exact isDigit_symbol (Numeral.lt_of_mem_canonical (by decide) hd)

theorem mem_map_symbol_hextable {ds : List Nat} (h : ∀ d ∈ ds, d < 16) {c : Byte}
    (hc : c ∈ ds.map symbol) : c ∈ hextable := by
  obtain ⟨d, hd, rfl⟩ := List.mem_map.mp hc
  exact symbol_mem_hextable (h d hd)

/-! ## The decimal loop -/

/-- The loop of the decimal helpers stores the digits of its value, wherever its digit
and quotient are those of natural numbers. -/
theorem repLoop_eq (digit : BitVec 64 → Byte) (next : BitVec 64 → BitVec 64)
    (P : BitVec 64 → Prop) (hdigit : ∀ v, P v → digit v = symbol (v.toNat % 10))
    (hnext : ∀ v, P v → P (next v) ∧ (next v).toNat = v.toNat / 10) (hv : P v)
    (hroom : (Nat.digits 10 v.toNat).length ≤ room) :
    repLoop digit next room v rep
      = .ok ((Nat.digits 10 v.toNat).reverse.map symbol ++ rep) := by
  induction room generalizing v rep with
  | zero =>
    have hzero : v.toNat = 0 := by
      have hnil := List.length_eq_zero_iff.mp (Nat.le_zero.mp hroom)
      exact Nat.digits_eq_nil_iff_eq_zero.mp hnil
    rw [repLoop, if_pos (BitVec.eq_of_toNat_eq hzero), hzero, Nat.digits_zero]
    rfl
  | succ room ih =>
    unfold repLoop
    by_cases h : v = 0
    · rw [if_pos h, h]
      simp
    · have hpos : 0 < v.toNat := Nat.pos_of_ne_zero fun h0 => h (BitVec.eq_of_toNat_eq h0)
      have hdigits := Nat.digits_def' (b := 10) (by decide) hpos
      rw [hdigits, List.length_cons] at hroom
      obtain ⟨hP, hquot⟩ := hnext v hv
      rw [if_neg h]
      simp only
      rw [ih hP (by rw [hquot]; omega), hquot, hdigits, hdigit v hv]
      simp

/-- A 64-bit value has 20 decimal digits at most, fewer than the array has places. -/
theorem length_digits_ten (v : BitVec 64) : (Nat.digits 10 v.toNat).length ≤ 20 := by
  rw [Nat.digits_length_le_iff (by decide)]
  exact Nat.lt_of_lt_of_le v.isLt (by decide)

theorem length_digits_ten_le (v : BitVec 64) : (Nat.digits 10 v.toNat).length ≤ sizeofRep :=
  (length_digits_ten v).trans (by decide)

theorem digit_symbol (h : (v % 10).toNat = n) : (v % 10 + 48).setWidth 8 = symbol n := by
  have hlt : n < 10 := by
    rw [← h, BitVec.toNat_umod]
    exact Nat.mod_lt _ (by decide)
  have hchar := Nat.toNat_digitChar_of_lt_ten hlt
  apply BitVec.eq_of_toNat_eq
  unfold symbol chr
  rw [hchar, BitVec.toNat_setWidth, BitVec.toNat_add, h, BitVec.toNat_ofNat]
  have h48 : (48 : BitVec 64).toNat = 48 := rfl
  rw [h48]
  omega

/-- Below `2 ^ 63` the signed operations are the unsigned ones. -/
theorem srem_of_lt (h : v.toNat < 2 ^ 63) : v.srem 10 = v % 10 := by
  have hmsb : v.msb = false := by
    rw [BitVec.msb_eq_decide]
    simpa using h
  rw [BitVec.srem_eq, hmsb]
  rfl

theorem sdiv_of_lt (h : v.toNat < 2 ^ 63) : v.sdiv 10 = v / 10 := by
  have hmsb : v.msb = false := by
    rw [BitVec.msb_eq_decide]
    simpa using h
  rw [BitVec.sdiv_eq, hmsb]
  rfl

theorem udecRep_eq (hroom : 20 ≤ room) :
    udecRep room v = .ok ((Nat.digits 10 v.toNat).reverse.map symbol) := by
  refine (repLoop_eq _ _ (fun _ => True) ?_ ?_ trivial ((length_digits_ten v).trans hroom)).trans ?_
  · exact fun v _ => digit_symbol BitVec.toNat_umod
  · exact fun v _ => ⟨trivial, BitVec.toNat_udiv⟩
  · rw [List.append_nil]

theorem repLoop_signed (h : v.toNat < 2 ^ 63) :
    repLoop (fun v => (v.srem 10 + 48).setWidth 8) (fun v => v.sdiv 10) sizeofRep v []
      = .ok ((Nat.digits 10 v.toNat).reverse.map symbol) := by
  refine (repLoop_eq _ _ (fun v => v.toNat < 2 ^ 63) ?_ ?_ h (length_digits_ten_le v)).trans ?_
  · intro v hv
    rw [srem_of_lt hv]
    exact digit_symbol BitVec.toNat_umod
  · intro v hv
    have hquot : (v.sdiv 10).toNat = v.toNat / 10 := by
      rw [sdiv_of_lt hv, BitVec.toNat_udiv]
      rfl
    exact ⟨by rw [hquot]; omega, hquot⟩
  · rw [List.append_nil]

/-! ## Decimal texts -/

/-- What `__format_add_idec` appends. The least value is its own negation: its digits
are negative, and come out as the characters before `0`. -/
def idecText (value : BitVec 64) : List Byte :=
  if value = BitVec.intMin 64 then chr '-' :: (numeralText 10 (2 ^ 63)).map fun c => 96 - c
  else (if value.toInt < 0 then [chr '-'] else []) ++ numeralText 10 value.toInt.natAbs

theorem numeralText_of_ne_zero (h : n ≠ 0) :
    numeralText 10 n = (Nat.digits 10 n).reverse.map symbol := by
  rw [numeralText_eq (by decide), Numeral.canonical_of_ne_zero h]

theorem formatAddUdec_eq (buf : Buffer Byte) (len : Nat) (value : BitVec 64) :
    formatAddUdec buf len value = .ok (buf.addAll len (numeralText 10 value.toNat)) := by
  unfold formatAddUdec
  by_cases h : value = 0
  · rw [if_pos h, h]
    rfl
  · have hne : value.toNat ≠ 0 := fun h0 => h (BitVec.eq_of_toNat_eq h0)
    have hrep : udecRep sizeofRep value = _ := udecRep_eq (by decide)
    rw [if_neg h, hrep, numeralText_of_ne_zero hne]
    rfl

/-- The negation of a negative value other than the least one. -/
theorem toNat_neg_of_neg (hneg : value.toInt < 0) : (-value).toNat = value.toInt.natAbs := by
  rw [BitVec.toInt_eq_toNat_cond] at *
  rw [BitVec.toNat_neg]
  omega

theorem toNat_lt_of_ne_intMin (h : value ≠ BitVec.intMin 64) : value.toInt.natAbs < 2 ^ 63 := by
  have hne : value.toNat ≠ 2 ^ 63 := fun h0 => h (BitVec.eq_of_toNat_eq h0)
  rw [BitVec.toInt_eq_toNat_cond]
  omega

/-- The array holds the digits of every value. -/
theorem formatAddIdec_eq (buf : Buffer Byte) (len : Nat) (value : BitVec 64) :
    formatAddIdec buf len value = .ok (buf.addAll len (idecText value)) := by
  unfold formatAddIdec
  by_cases h0 : value = 0
  · rw [if_pos h0, h0]
    rfl
  rw [if_neg h0]
  have hne : value.toInt.natAbs ≠ 0 := by
    intro hzero
    exact h0 (BitVec.eq_of_toInt_eq (Int.natAbs_eq_zero.mp hzero))
  by_cases hmin : value = BitVec.intMin 64
  · subst hmin
    have hrep : repLoop (fun v => (v.srem 10 + 48).setWidth 8) (fun v => v.sdiv 10) sizeofRep
        (-BitVec.intMin 64) [] = .ok ((numeralText 10 (2 ^ 63)).map fun c => 96 - c) := by rfl
    have hslt : (BitVec.intMin 64).slt 0 = true := by decide
    rw [if_pos hslt]
    simp only [hrep, idecText, if_true]
    rfl
  · have hlt := toNat_lt_of_ne_intMin hmin
    unfold idecText
    rw [if_neg hmin, numeralText_of_ne_zero hne]
    by_cases hneg : value.toInt < 0
    · have hslt : value.slt 0 = true := by
        rw [BitVec.slt_iff_toInt_lt]
        exact hneg
      have habs := toNat_neg_of_neg hneg
      have hrep := repLoop_signed (v := -value) (by rw [habs]; exact hlt)
      rw [habs] at hrep
      rw [if_pos hslt, if_pos hneg]
      simp only [hrep]
      rfl
    · have hslt : ¬ value.slt 0 = true := by
        rw [BitVec.slt_iff_toInt_lt]
        exact hneg
      have habs : value.toNat = value.toInt.natAbs := by
        rw [BitVec.toInt_eq_toNat_cond] at *
        omega
      have hrep := repLoop_signed (v := value) (by rw [habs]; exact hlt)
      rw [habs] at hrep
      rw [if_neg hslt, if_neg hneg]
      simp only [hrep]
      rfl

/-! ## Signed rendering is faithful -/

/-- `s` is the decimal numeral of `v`: a sign exactly when `v` is negative, then digits
that start with a zero only when they are one, and it reads as `v`. -/
structure IsDecimal (v : Int) (s : List Byte) : Prop where
  shape : ∃ ds, s = (if v < 0 then [chr '-'] else []) ++ ds ∧ ds ≠ [] ∧
    (∀ c ∈ ds, chr '0' ≤ c ∧ c ≤ chr '9') ∧ (ds.head? = some (chr '0') → ds = [chr '0'])
  reads : readDecimal s = some v

/-- `__format_add_idec` appends a decimal numeral of its value, as much of it as fits,
and stays inside its array. -/
def IdecFaithful (value : BitVec 64) : Prop :=
  ∃ s, IsDecimal value.toInt s ∧ ∀ buf len,
    ∃ buf', formatAddIdec buf len value = .ok buf' ∧ Buffer.Appended len s buf buf'

theorem isDecimal_idecText (h : value ≠ BitVec.intMin 64) :
    IsDecimal value.toInt (idecText value) := by
  unfold idecText
  rw [if_neg h]
  have hread := readNumeral_numeralText (b := 10) (by decide) (by decide) value.toInt.natAbs
  refine ⟨⟨_, rfl, numeralText_ne_nil, fun c hc => mem_numeralText_ten hc,
    head?_numeralText (by decide) (by decide)⟩, ?_⟩
  unfold readDecimal
  by_cases hneg : value.toInt < 0
  · rw [if_pos hneg, List.singleton_append, List.head?_cons, if_pos rfl, List.tail_cons, hread,
      Option.map_some]
    exact congrArg some (by omega)
  · have hhead : (numeralText 10 value.toInt.natAbs).head? ≠ some (chr '-') := by
      intro hhead
      have hdigit := mem_numeralText_ten (List.mem_of_mem_head? hhead)
      exact absurd hdigit.1 (by decide)
    rw [if_neg hneg, List.nil_append, if_neg hhead, hread, Option.map_some]
    exact congrArg some (by omega)

theorem not_isDecimal_idecText_intMin :
    ¬ IsDecimal (BitVec.intMin 64).toInt (idecText (BitVec.intMin 64)) := by
  rintro ⟨⟨ds, hs, -, hdigits, -⟩, -⟩
  have hneg : (BitVec.intMin 64).toInt < 0 := by decide
  rw [if_pos hneg, idecText, if_pos rfl, List.singleton_append, List.cons.injEq] at hs
  have hmem : (39 : Byte) ∈ ds := by
    rw [← hs.2]
    decide +kernel
  exact absurd (hdigits _ hmem).1 (by decide)

/-- The text that is appended is determined by what a buffer with room for it holds. -/
theorem idecFaithful_iff_isDecimal (value : BitVec 64) :
    IdecFaithful value ↔ IsDecimal value.toInt (idecText value) := by
  constructor
  · rintro ⟨s, hs, happend⟩
    let buf : Buffer Byte := { data := fun _ => 0, sz := 0 }
    let len := s.length + (idecText value).length
    obtain ⟨buf', hbuf', hs'⟩ := happend buf len
    rw [formatAddIdec_eq] at hbuf'
    have hidec := Buffer.appended_addAll len buf (idecText value)
    rw [Except.ok.inj hbuf'] at hidec
    have heq := hs'.unique hidec (by simp only [buf, len]; omega) (by simp only [buf, len]; omega)
    exact heq ▸ hs
  · intro h
    exact ⟨idecText value, h, fun buf len =>
      ⟨_, formatAddIdec_eq buf len value, Buffer.appended_addAll len buf _⟩⟩

/-- Signed decimal rendering is faithful for every value but the least. -/
theorem idecFaithful_iff (value : BitVec 64) :
    IdecFaithful value ↔ value ≠ BitVec.intMin 64 := by
  rw [idecFaithful_iff_isDecimal]
  constructor
  · rintro h rfl
    exact not_isDecimal_idecText_intMin h
  · exact isDecimal_idecText

/-- `-2 ^ 63` comes out without a digit. -/
theorem not_idecFaithful_intMin : ¬ IdecFaithful (BitVec.intMin 64) := by
  rw [idecFaithful_iff_isDecimal]
  exact not_isDecimal_idecText_intMin

/-! ## The hexadecimal loop -/

theorem hextable_getElem (v : BitVec 64) :
    hextable[(v &&& 0xf).toNat]?.getD 0 = symbol (v.toNat % 16) := by
  have hall : ∀ d < 16, hextable[d]?.getD 0 = symbol d := by decide
  have hand : (v &&& 0xf).toNat = v.toNat % 16 := by
    rw [BitVec.toNat_and]
    exact Nat.and_two_pow_sub_one_eq_mod v.toNat 4
  rw [hand]
  exact hall _ (Nat.mod_lt _ (by decide))

theorem toNat_shift_four (v : BitVec 64) : (v >>> 4).toNat = v.toNat / 16 := by
  rw [BitVec.toNat_ushiftRight]
  exact Nat.shiftRight_eq_div_pow v.toNat 4

/-- A small precision is counted down to zero, whatever the value. -/
theorem hexLoop_counted (hp : precision.toNat ≤ 16) (hroom : precision.toNat ≤ room) :
    hexLoop room v precision rep
      = .ok ((Numeral.low 16 precision.toNat v.toNat).map symbol ++ rep) := by
  induction room generalizing v precision rep with
  | zero =>
    have hzero : precision = 0 := BitVec.eq_of_toNat_eq (Nat.le_zero.mp hroom)
    subst hzero
    rfl
  | succ room ih =>
    have hle : ¬ 16 < precision := by
      rw [BitVec.lt_def]
      exact Nat.not_lt.mpr hp
    unfold hexLoop
    by_cases h : precision = 0
    · subst h
      rfl
    · have hpred : (precision - 1).toNat = precision.toNat - 1 := by bv_omega
      obtain ⟨k, hk⟩ : ∃ k, precision.toNat = k + 1 := ⟨precision.toNat - 1, by bv_omega⟩
      rw [if_pos ⟨h, fun hc => hle hc.1⟩]
      simp only
      rw [ih (by omega) (by omega), hpred, toNat_shift_four, hextable_getElem, hk]
      simp [Numeral.low]

theorem sixteen_lt (hp : 16 + room < precision.toNat) : 16 < precision := by
  rw [BitVec.lt_def]
  exact Nat.lt_of_le_of_lt (Nat.le_add_right 16 room) hp

/-- A large precision never gets near zero: the loop stops behind the last digit that
is not zero. -/
theorem hexLoop_until_zero (hp : 16 + room < precision.toNat) (hrep : rep ≠ [])
    (hroom : (Nat.digits 16 v.toNat).length ≤ room) :
    hexLoop room v precision rep = .ok ((Nat.digits 16 v.toNat).reverse.map symbol ++ rep) := by
  induction room generalizing v precision rep with
  | zero =>
    have hlength : rep.length ≠ 0 := fun h => hrep (List.length_eq_zero_iff.mp h)
    have hlt := sixteen_lt hp
    have hnil := List.length_eq_zero_iff.mp (Nat.le_zero.mp hroom)
    have hzero : v = 0 := BitVec.eq_of_toNat_eq (Nat.digits_eq_nil_iff_eq_zero.mp hnil)
    rw [hexLoop, if_neg (fun h => h.2 ⟨hlt, hzero, hlength⟩), hnil]
    rfl
  | succ room ih =>
    have hlength : rep.length ≠ 0 := fun h => hrep (List.length_eq_zero_iff.mp h)
    have hlt := sixteen_lt hp
    have hne : precision ≠ 0 := by bv_omega
    have hpred : (precision - 1).toNat = precision.toNat - 1 := by bv_omega
    unfold hexLoop
    by_cases h : v = 0
    · rw [if_neg (fun hc => hc.2 ⟨hlt, h, hlength⟩), h]
      simp
    · have hpos : 0 < v.toNat := Nat.pos_of_ne_zero fun h0 => h (BitVec.eq_of_toNat_eq h0)
      have hdigits := Nat.digits_def' (b := 16) (by decide) hpos
      rw [hdigits, List.length_cons] at hroom
      rw [if_pos ⟨hne, fun hc => h hc.2.1⟩]
      simp only
      rw [ih (by omega) (List.cons_ne_nil _ _) (by rw [toNat_shift_four]; omega),
        toNat_shift_four, hdigits, hextable_getElem]
      simp

/-! ## Hexadecimal texts -/

/-- What `uint64_to_hex` appends. -/
def hexText (value : BitVec 64) (precision : Word) : List Byte :=
  if 1 ≤ precision ∧ precision ≤ 16 then
    (Numeral.low 16 precision.toNat value.toNat).map symbol
  else numeralText 16 value.toNat

/-- The first digit is stored whatever the value. -/
theorem hexLoop_canonical (v : BitVec 64) :
    hexLoop sizeofHexRep v (-1) [] = .ok (numeralText 16 v.toNat) := by
  have hroom : (Nat.digits 16 (v >>> 4).toNat).length ≤ 15 := by
    rw [Nat.digits_length_le_iff (by decide), toNat_shift_four]
    have hlt := v.isLt
    omega
  have hrest : hexLoop 15 (v >>> 4) (-1 - 1) [symbol (v.toNat % 16)] = _ :=
    hexLoop_until_zero (by decide) (List.cons_ne_nil _ _) hroom
  unfold sizeofHexRep hexLoop
  rw [if_pos ⟨by decide, fun h => h.2.2 rfl⟩]
  simp only
  rw [hextable_getElem, hrest, toNat_shift_four, numeralText_eq (by decide)]
  by_cases h : v.toNat = 0
  · rw [h]
    rfl
  · rw [Numeral.canonical_of_ne_zero h, Nat.digits_def' (b := 16) (by decide)
      (Nat.pos_of_ne_zero h)]
    simp

theorem uint64ToHex_eq (buf : Buffer Byte) (len : Nat) (value : BitVec 64) (precision : Word) :
    uint64ToHex buf len value precision
      = .ok (buf.addAll len (hexText value precision), (hexText value precision).length) := by
  unfold uint64ToHex hexText
  by_cases h : precision = 0 ∨ 16 < precision
  · have hnot : ¬ (1 ≤ precision ∧ precision ≤ 16) := by bv_omega
    simp only [if_pos h, if_neg hnot, hexLoop_canonical]
    rfl
  · have hcounted : 1 ≤ precision ∧ precision ≤ 16 := by bv_omega
    have hle : precision.toNat ≤ 16 := BitVec.le_def.mp hcounted.2
    have hloop : hexLoop sizeofHexRep value precision [] = _ := hexLoop_counted hle hle
    rw [List.append_nil] at hloop
    simp only [if_neg h, if_pos hcounted, hloop]
    rfl

theorem formatAddHex_eq (buf : Buffer Byte) (len : Nat) (value : BitVec 64) :
    formatAddHex buf len value 0 = .ok (buf.addAll len (numeralText 16 value.toNat)) := by
  have htext : hexText value 0 = numeralText 16 value.toNat := if_neg (by decide)
  unfold formatAddHex
  rw [uint64ToHex_eq, htext]
  rfl

/-- A precision from 1 to 16 gives as many digits; any other gives the digits the value
needs. The number of digits is returned even when the buffer cuts them. -/
theorem uint64ToHex_rendering (value : BitVec 64) (precision : Word) :
    ∃ s, (∀ buf len, ∃ buf', uint64ToHex buf len value precision = .ok (buf', s.length) ∧
        Buffer.Appended len s buf buf') ∧
      (∀ c ∈ s, c ∈ hextable) ∧
      (1 ≤ precision ∧ precision ≤ 16 →
        s.length = precision.toNat ∧
          readNumeral 16 s = some (value.toNat % 16 ^ precision.toNat)) ∧
      (precision = 0 ∨ 16 < precision →
        readNumeral 16 s = some value.toNat ∧ (s.head? = some (chr '0') → s = [chr '0'])) := by
  refine ⟨hexText value precision, fun buf len => ⟨_, uint64ToHex_eq buf len value precision,
    Buffer.appended_addAll len buf _⟩, ?_, ?_, ?_⟩
  · intro c hc
    unfold hexText at hc
    split at hc
    · exact mem_map_symbol_hextable (fun d hd => Numeral.lt_of_mem_low (by decide) hd) hc
    · rw [numeralText_eq (by decide)] at hc
      exact mem_map_symbol_hextable (fun d hd => Numeral.lt_of_mem_canonical (by decide) hd) hc
  · intro h
    have hne : Numeral.low 16 precision.toNat value.toNat ≠ [] := by
      rw [← List.length_pos_iff, Numeral.length_low]
      exact BitVec.le_def.mp h.1
    rw [hexText, if_pos h]
    refine ⟨by rw [List.length_map, Numeral.length_low], ?_⟩
    rw [readNumeral_map_symbol (by decide) hne fun d hd => Numeral.lt_of_mem_low (by decide) hd,
      Numeral.value_low]
  · intro h
    have hnot : ¬ (1 ≤ precision ∧ precision ≤ 16) := by bv_omega
    rw [hexText, if_neg hnot]
    exact ⟨readNumeral_numeralText (by decide) (by decide) _,
      head?_numeralText (by decide) (by decide)⟩

end SecOS
