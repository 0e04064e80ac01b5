-- SUMMARY: A format as a sequence of directives, and the interpreter of formats as their renderings one after another, cut where the buffer ends.
import SecOS.Kernel.Digits

/-!
# Formats

The interpreter reads a format character by character and keeps three variables. Here a
format is split into directives first, each of which has a rendering and takes a number
of words from the arguments, whatever stands before and behind it.
-/

namespace SecOS

open X86

/-! ## Directives -/

/-- A character between `%` and the one that ends a conversion. -/
inductive Modifier where
  | l
  | h
  | digit (d : Fin 10)
  deriving DecidableEq

/-- The characters that end a conversion. -/
inductive Conv where
  | s | c | b | B | d | i | u | x | D | X | p
  | percent
  deriving DecidableEq

inductive Directive where
  | literal (c : Byte)
  | conversion (mods : List Modifier) (v : Conv)
  deriving DecidableEq

def Modifier.char : Modifier → Byte
  | l => chr 'l'
  | h => chr 'h'
  | digit d => symbol d.val

def Conv.char : Conv → Byte
  | s => chr 's'
  | c => chr 'c'
  | b => chr 'b'
  | B => chr 'B'
  | d => chr 'd'
  | i => chr 'i'
  | u => chr 'u'
  | x => chr 'x'
  | D => chr 'D'
  | X => chr 'X'
  | p => chr 'p'
  | percent => chr '%'

def modifiers : List Modifier := [.l, .h] ++ (List.finRange 10).map .digit

def convs : List Conv := [.s, .c, .b, .B, .d, .i, .u, .x, .D, .X, .p, .percent]

/-- The text of a conversion that has not ended. -/
def modsText (mods : List Modifier) : List Byte := chr '%' :: mods.map Modifier.char

def Directive.text : Directive → List Byte
  | literal c => [c]
  | conversion mods v => modsText mods ++ [v.char]

def formatText (ds : List Directive) : List Byte := ds.flatMap Directive.text

/-- Split a format into its directives. `inside` holds the modifiers of a conversion
that has begun; what is left of it at the end of the format comes back. A character that
the interpreter does not know has no result. -/
def splitFrom : Option (List Modifier) → List Byte → Option (List Directive × Option (List Modifier))
  | inside, [] => some ([], inside)
  | none, c :: format =>
    if c = chr '%' then splitFrom (some []) format
    else (splitFrom none format).map fun r => (.literal c :: r.1, r.2)
  | some mods, c :: format =>
    match modifiers.find? fun m => m.char = c with
    | some m => splitFrom (some (mods ++ [m])) format
    | none =>
      match convs.find? fun v => v.char = c with
      | some v => (splitFrom none format).map fun r => (.conversion mods v :: r.1, r.2)
      | none => none

def splitFormat (format : List Byte) : Option (List Directive × Option (List Modifier)) :=
  splitFrom none format

/-- What `splitFrom` has read already. -/
def insideText : Option (List Modifier) → List Byte
  | none => []
  | some mods => modsText mods

/-! ## Renderings -/

/-- The length variables of the interpreter after the modifiers: `lng` and `size`. -/
def Modifier.run (r : Bool × Nat) : Modifier → Bool × Nat
  | l => if r.1 then (r.1, 8) else (true, r.2)
  | h => (r.1, r.2 / 2)
  | digit _ => r

def sizeAfter (mods : List Modifier) : Nat := (mods.foldl Modifier.run (false, 4)).2

/-- The number of argument words that a conversion takes. -/
def Conv.words (size : Nat) : Conv → Nat
  | s | c | b | p => 1
  | B | D | X => 2
  | d | i | u | x => if 8 ≤ size then 2 else 1
  | percent => 0

def binText (n : Nat) (value : BitVec 64) : List Byte :=
  (List.range n).map fun i =>
    if (value >>> (n - i - 1)) &&& 1 ≠ 0 then chr '1' else chr '0'

/-- What a conversion renders of the argument at `params`. -/
def Conv.render (mem : Mem) (params : Word) (size : Nat) : Conv → List Byte
  | s => cString mem (vaArg32 mem params).1
  | c => [(vaArg32 mem params).1.setWidth 8]
  | b => binText 32 ((vaArg32 mem params).1.setWidth 64)
  | B => binText 64 (vaArg64 mem params).1
  | d | i => idecText (vaArgSigned mem params size).1
  | u => numeralText 10 (vaArgUnsigned mem params size).1.toNat
  | x => numeralText 16 (vaArgUnsigned mem params size).1.toNat
  | D => idecText (vaArg64 mem params).1
  | X => numeralText 16 (vaArg64 mem params).1.toNat
  | p => [chr '0', chr 'x'] ++ numeralText 16 (vaArg32 mem params).1.toNat
  | percent => [chr '%']

namespace Directive

def words : Directive → Nat
  | literal _ => 0
  | conversion mods v => v.words (sizeAfter mods)

def render (mem : Mem) (params : Word) : Directive → List Byte
  | literal c => [c]
  | conversion mods v => v.render mem params (sizeAfter mods)

end Directive

/-- Where the argument behind those of `ds` is. -/
def argsAfter (params : Word) : List Directive → Word
  | [] => params
  | d :: ds => argsAfter (params + BitVec.ofNat 32 (4 * d.words)) ds

/-- The renderings one after another, each of its own arguments. -/
def renderAll (mem : Mem) (params : Word) : List Directive → List Byte
  | [] => []
  | d :: ds => d.render mem params ++ renderAll mem (params + BitVec.ofNat 32 (4 * d.words)) ds

variable {mem : Mem} {len : Nat} {st st' : FmtState} {params : Word} {data : Nat → Byte}
variable {mods : List Modifier} {m : Modifier} {v : Conv} {d : Directive} {c : Byte}
variable {ds pre post : List Directive} {format rest : List Byte}
variable {inside tail : Option (List Modifier)}

/-! ## Splitting -/

@[simp] theorem formatText_nil : formatText [] = [] := rfl

@[simp] theorem formatText_cons : formatText (d :: ds) = d.text ++ formatText ds :=
  List.flatMap_cons

@[simp] theorem insideText_none : insideText none = [] := rfl

@[simp] theorem insideText_some : insideText (some mods) = modsText mods := rfl

theorem find?_modifier (h : (modifiers.find? fun m => m.char = c) = some m) : m.char = c := by
  simpa using List.find?_some h

theorem find?_conv (h : (convs.find? fun v => v.char = c) = some v) : v.char = c := by
  simpa using List.find?_some h

/-- The directives are what the format is made of. -/
theorem text_splitFrom (h : splitFrom inside format = some (ds, tail)) :
    insideText inside ++ format = formatText ds ++ insideText tail := by
  induction format generalizing inside ds with
  | nil =>
    cases h
    rw [List.append_nil, formatText_nil, List.nil_append]
  | cons c format ih =>
    cases inside with
    | none =>
      rw [splitFrom] at h
      split at h
      · next hc =>
        rw [← ih h, hc]
        rfl
      · rw [Option.map_eq_some_iff] at h
        obtain ⟨⟨ds', tail'⟩, hr, hds⟩ := h
        cases hds
        have hrest := ih hr
        rw [insideText_none, List.nil_append] at hrest ⊢
        rw [hrest, formatText_cons]
        rfl
    | some mods =>
      rw [splitFrom] at h
      split at h
      · next m hm =>
        rw [← ih h, ← find?_modifier hm]
        simp [modsText]
      · split at h
        · next v hv =>
          rw [Option.map_eq_some_iff] at h
          obtain ⟨⟨ds', tail'⟩, hr, hds⟩ := h
          cases hds
          have hrest := ih hr
          rw [insideText_none, List.nil_append] at hrest
          rw [hrest, ← find?_conv hv, formatText_cons, insideText_some, Directive.text]
          simp
        · cases h

theorem text_splitFormat (h : splitFormat format = some (ds, tail)) :
    format = formatText ds ++ insideText tail := text_splitFrom h

/-! ## One directive -/

/-- The modifiers change nothing but the length variables. -/
def FmtState.modify (st : FmtState) (r : Bool × Nat) : FmtState := { st with lng := r.1, size := r.2 }

/-- A digit ends no conversion. -/
theorem char_digit_ne (d : Fin 10) (v : Conv) : Modifier.char (.digit d) ≠ v.char := by
  revert d
  cases v <;> decide

theorem vsnprintfStep_modifier (h : st.interp = true) (m : Modifier) :
    vsnprintfStep mem len st m.char = .ok (st.modify (Modifier.run (st.lng, st.size) m)) := by
  unfold vsnprintfStep
  rw [if_pos h]
  cases m with
  | l =>
    have hl : Modifier.char .l = chr 'l' := rfl
    rw [if_pos hl]
    simp only [Modifier.run]
    split <;> rfl
  | h => rfl
  | digit d =>
    have hl : Modifier.char (.digit d) ≠ chr 'l' := by revert d; decide
    have hh : Modifier.char (.digit d) ≠ chr 'h' := by revert d; decide
    have hs : Modifier.char (.digit d) ≠ chr 's' := char_digit_ne d .s
    have hc : Modifier.char (.digit d) ≠ chr 'c' := char_digit_ne d .c
    have hb : Modifier.char (.digit d) ≠ chr 'b' := char_digit_ne d .b
    have hB : Modifier.char (.digit d) ≠ chr 'B' := char_digit_ne d .B
    have hd : Modifier.char (.digit d) ≠ chr 'd' := char_digit_ne d .d
    have hi : Modifier.char (.digit d) ≠ chr 'i' := char_digit_ne d .i
    have hu : Modifier.char (.digit d) ≠ chr 'u' := char_digit_ne d .u
    have hx : Modifier.char (.digit d) ≠ chr 'x' := char_digit_ne d .x
    have hD : Modifier.char (.digit d) ≠ chr 'D' := char_digit_ne d .D
    have hX : Modifier.char (.digit d) ≠ chr 'X' := char_digit_ne d .X
    have hp : Modifier.char (.digit d) ≠ chr 'p' := char_digit_ne d .p
    have hrange : chr '0' ≤ Modifier.char (.digit d) ∧ Modifier.char (.digit d) ≤ chr '9' :=
      isDigit_symbol d.isLt
    simp only [hl, hh, hs, hc, hb, hB, hd, hi, hu, hx, hD, hX, hp, or_self, if_false, if_pos hrange]
    rfl

theorem vaArgSigned_snd (mem : Mem) (params : Word) (size : Nat) :
    (vaArgSigned mem params size).2 = params + BitVec.ofNat 32 (4 * if 8 ≤ size then 2 else 1) := by
  unfold vaArgSigned vaArg32 vaArg64
  split
  · rfl
  · simp only
    split
    · rfl
    · split <;> rfl

theorem vaArgUnsigned_snd (mem : Mem) (params : Word) (size : Nat) :
    (vaArgUnsigned mem params size).2
      = params + BitVec.ofNat 32 (4 * if 8 ≤ size then 2 else 1) := by
  unfold vaArgUnsigned vaArg32 vaArg64
  split
  · rfl
  · simp only
    split
    · rfl
    · split <;> rfl

theorem formatAddBin_eq (buf : Buffer Byte) (len : Nat) (value : BitVec 64) (n : Nat) :
    formatAddBin buf len value n = buf.addAll len (binText n value) := by
  unfold formatAddBin binText Buffer.addAll
  rw [List.foldl_map]
  rfl

theorem formatAddStr_eq (buf : Buffer Byte) (len : Nat) (s : List Byte) :
    formatAddStr buf len s = buf.addAll len s := rfl

/-- The character that ends a conversion. -/
theorem vsnprintfStep_conv (h : st.interp = true) (v : Conv) :
    vsnprintfStep mem len st v.char
      = .ok (st.done (st.buf.addAll len (v.render mem st.params st.size))
          (st.params + BitVec.ofNat 32 (4 * v.words st.size))) := by
  unfold vsnprintfStep
  rw [if_pos h]
  cases v with
  | s => rfl
  | c => rfl
  | b =>
    rw [Conv.render, ← formatAddBin_eq]
    rfl
  | B =>
    rw [Conv.render, ← formatAddBin_eq]
    rfl
  | d =>
    rw [Conv.render, Conv.words, ← vaArgSigned_snd mem]
    simp +decide only [Conv.char, if_false, if_true, formatAddIdec_eq, Except.map]
  | i =>
    rw [Conv.render, Conv.words, ← vaArgSigned_snd mem]
    simp +decide only [Conv.char, if_false, if_true, formatAddIdec_eq, Except.map]
  | u =>
    rw [Conv.render, Conv.words, ← vaArgUnsigned_snd mem]
    simp +decide only [Conv.char, if_false, if_true, formatAddUdec_eq, Except.map]
  | x =>
    rw [Conv.render, Conv.words, ← vaArgUnsigned_snd mem]
    simp +decide only [Conv.char, if_false, if_true, formatAddHex_eq, Except.map]
  | D =>
    simp +decide only [Conv.char, if_false, if_true, formatAddIdec_eq, Except.map]
    rfl
  | X =>
    simp +decide only [Conv.char, if_false, if_true, formatAddHex_eq, Except.map]
    rfl
  | p =>
    simp +decide only [Conv.char, if_false, if_true, formatAddHex_eq, formatAddStr_eq, Except.map]
    rw [Conv.render, Buffer.addAll_append]
    have hvalue (w : Word) : (w.setWidth 64).toNat = w.toNat := by
      rw [BitVec.toNat_setWidth]
      exact Nat.mod_eq_of_lt (Nat.lt_trans w.isLt (by decide))
    rw [hvalue]
    rfl
  | percent =>
    have hparams : st.params = st.params + BitVec.ofNat 32 (4 * Conv.percent.words st.size) :=
      (BitVec.add_zero _).symm
    rw [← hparams]
    rfl

/-! ## The loop -/

theorem vsnprintfLoop_append (st : FmtState) (format rest : List Byte) :
    vsnprintfLoop mem len st (format ++ rest)
      = (vsnprintfLoop mem len st format).bind (vsnprintfLoop mem len · rest) := by
  induction format generalizing st with
  | nil => rfl
  | cons c format ih =>
    rw [List.cons_append, vsnprintfLoop, vsnprintfLoop]
    cases vsnprintfStep mem len st c with
    | error e => rfl
    | ok st' => exact ih st'

theorem vsnprintfLoop_singleton (st : FmtState) (c : Byte) :
    vsnprintfLoop mem len st [c] = vsnprintfStep mem len st c := by
  rw [vsnprintfLoop]
  cases vsnprintfStep mem len st c <;> rfl

theorem vsnprintfLoop_modifiers (h : st.interp = true) (mods : List Modifier) :
    vsnprintfLoop mem len st (mods.map Modifier.char)
      = .ok (st.modify (mods.foldl Modifier.run (st.lng, st.size))) := by
  induction mods generalizing st with
  | nil => rfl
  | cons m mods ih =>
    rw [List.map_cons, vsnprintfLoop, vsnprintfStep_modifier h, List.foldl_cons]
    exact ih h

/-- The interpreter is at a place where a directive may begin. -/
structure Outside (st : FmtState) : Prop where
  interp : st.interp = false
  lng : st.lng = false

/-- The beginning of a conversion. -/
theorem vsnprintfLoop_modsText (h : Outside st) (mods : List Modifier) :
    vsnprintfLoop mem len st (modsText mods)
      = .ok { st with
          interp := true
          lng := (mods.foldl Modifier.run (false, 4)).1
          size := sizeAfter mods } := by
  have hpercent :
      vsnprintfStep mem len st (chr '%') = .ok { st with interp := true, size := 4 } := by
    unfold vsnprintfStep
    rw [if_neg (by rw [h.interp]; decide), if_pos rfl]
  unfold modsText
  rw [vsnprintfLoop, hpercent]
  refine (vsnprintfLoop_modifiers rfl mods).trans ?_
  rw [h.lng]
  rfl

/-- A literal character is not `%`. -/
def Directive.Valid : Directive → Prop
  | literal c => c ≠ chr '%'
  | conversion _ _ => True

variable (mem len) in
/-- A directive renders its own argument, and leaves nothing behind but the buffer and
the place of the next argument. -/
theorem vsnprintfLoop_directive (h : Outside st) (hd : d.Valid) :
    ∃ st', vsnprintfLoop mem len st d.text = .ok st' ∧ Outside st' ∧
      st'.buf = st.buf.addAll len (d.render mem st.params) ∧
      st'.params = st.params + BitVec.ofNat 32 (4 * d.words) := by
  cases d with
  | literal c =>
    have hc : c ≠ chr '%' := hd
    refine ⟨{ st with buf := bufAdd st.buf len c }, ?_, ⟨h.interp, h.lng⟩, rfl, ?_⟩
    · rw [Directive.text, vsnprintfLoop_singleton, vsnprintfStep, if_neg (by rw [h.interp]; decide),
        if_neg hc]
    · exact (BitVec.add_zero _).symm
  | conversion mods v =>
    let st₁ : FmtState :=
      { st with
        interp := true
        lng := (mods.foldl Modifier.run (false, 4)).1
        size := sizeAfter mods }
    refine ⟨st₁.done (st.buf.addAll len (v.render mem st.params (sizeAfter mods)))
      (st.params + BitVec.ofNat 32 (4 * v.words (sizeAfter mods))), ?_, ⟨rfl, rfl⟩, rfl, rfl⟩
    have hmods : vsnprintfLoop mem len st (modsText mods) = .ok st₁ := vsnprintfLoop_modsText h mods
    rw [Directive.text, vsnprintfLoop_append, hmods]
    exact (vsnprintfLoop_singleton st₁ v.char).trans (vsnprintfStep_conv rfl v)

variable (mem len) in
theorem vsnprintfLoop_directives (h : Outside st) (hds : ∀ d ∈ ds, d.Valid) :
    ∃ st', vsnprintfLoop mem len st (formatText ds) = .ok st' ∧ Outside st' ∧
      st'.buf = st.buf.addAll len (renderAll mem st.params ds) ∧
      st'.params = argsAfter st.params ds := by
  induction ds generalizing st with
  | nil => exact ⟨st, rfl, h, rfl, rfl⟩
  | cons d ds ih =>
    obtain ⟨st₁, hstep, hout₁, hbuf₁, hparams₁⟩ :=
      vsnprintfLoop_directive mem len h (hds d (List.mem_cons_self ..))
    obtain ⟨st₂, hloop, hout₂, hbuf₂, hparams₂⟩ :=
      ih hout₁ fun d' hd' => hds d' (List.mem_cons_of_mem _ hd')
    refine ⟨st₂, ?_, hout₂, ?_, ?_⟩
    · rw [formatText_cons, vsnprintfLoop_append, hstep]
      exact hloop
    · rw [hbuf₂, hbuf₁, hparams₁, renderAll, Buffer.addAll_append]
    · rw [hparams₂, hparams₁, argsAfter]

/-- Splitting makes literals of other characters only. -/
theorem valid_of_splitFrom (h : splitFrom inside format = some (ds, tail)) :
    ∀ d ∈ ds, d.Valid := by
  induction format generalizing inside ds with
  | nil =>
    cases h
    exact fun d hd => absurd hd List.not_mem_nil
  | cons c format ih =>
    cases inside with
    | none =>
      rw [splitFrom] at h
      split at h
      · exact ih h
      · next hc =>
        rw [Option.map_eq_some_iff] at h
        obtain ⟨⟨ds', tail'⟩, hr, hds⟩ := h
        cases hds
        intro d hd
        rcases List.mem_cons.mp hd with rfl | hd
        · exact hc
        · exact ih hr d hd
    | some mods =>
      rw [splitFrom] at h
      split at h
      · exact ih h
      · split at h
        · rw [Option.map_eq_some_iff] at h
          obtain ⟨⟨ds', tail'⟩, hr, hds⟩ := h
          cases hds
          intro d hd
          rcases List.mem_cons.mp hd with rfl | hd
          · exact trivial
          · exact ih hr d hd
        · cases h

/-! ## Reading the unsigned renderings back -/

/-- The digit of `__format_add_bin` at a place. -/
theorem bit_symbol (value : BitVec 64) (i : Nat) :
    (if (value >>> i) &&& 1 ≠ 0 then chr '1' else chr '0') = symbol (value.toNat / 2 ^ i % 2) := by
  have hbit : ((value >>> i) &&& 1).toNat = value.toNat / 2 ^ i % 2 := by
    have hone : (1 : BitVec 64).toNat = 1 := rfl
    rw [BitVec.toNat_and, BitVec.toNat_ushiftRight, hone, Nat.and_one_is_mod,
      Nat.shiftRight_eq_div_pow]
  rcases Nat.mod_two_eq_zero_or_one (value.toNat / 2 ^ i) with h | h
  · have hzero : (value >>> i) &&& 1 = 0 := BitVec.eq_of_toNat_eq (hbit.trans h)
    rw [if_neg (fun hne => hne hzero), h]
    rfl
  · have hone : (value >>> i) &&& 1 ≠ 0 := by
      intro hzero
      rw [hzero] at hbit
      exact absurd (hbit.trans h) (by decide)
    rw [if_pos hone, h]
    rfl

theorem binText_eq (n : Nat) (value : BitVec 64) :
    binText n value = (Numeral.low 2 n value.toNat).map symbol := by
  unfold binText
  rw [Numeral.low_eq_map_range, List.map_map]
  exact List.map_congr_left fun i _ => bit_symbol value (n - i - 1)

/-- `s` is the numeral of `n` in base `b`: it reads as `n`, and starts with a zero only
when it is one. -/
structure IsNumeral (b n : Nat) (s : List Byte) : Prop where
  head : s.head? = some (chr '0') → s = [chr '0']
  reads : readNumeral b s = some n

/-- The digits of `__format_add_udec`, none more than needed, take 20 places of its array
at most. Those of `__format_add_bin` are as many as it is asked for; it shifts by less
than 64 as long as these are no more than 64. -/
theorem unsigned_rendering (value : BitVec 64) :
    (∃ s, IsNumeral 10 value.toNat s ∧
      (∃ rep, udecRep sizeofRep value = .ok rep ∧ udecRep 20 value = .ok rep ∧
        rep.length ≤ 20) ∧
      ∀ buf len, ∃ buf', formatAddUdec buf len value = .ok buf' ∧
        Buffer.Appended len s buf buf') ∧
    ∀ n, ∃ s, s.length = n ∧
      (∃ ds, s.mapM digitOf = some ds ∧ (∀ d ∈ ds, d < 2) ∧
        Numeral.value 2 ds = value.toNat % 2 ^ n) ∧
      ∀ buf len, Buffer.Appended len s buf (formatAddBin buf len value n) := by
  constructor
  · have hnumeral : IsNumeral 10 value.toNat (numeralText 10 value.toNat) :=
      ⟨head?_numeralText (by decide) (by decide), readNumeral_numeralText (by decide) (by decide) _⟩
    refine ⟨_, hnumeral, ⟨_, udecRep_eq (by decide), udecRep_eq (Nat.le_refl 20), ?_⟩, ?_⟩
    · rw [List.length_map, List.length_reverse]
      exact length_digits_ten value
    · intro buf len
      exact ⟨_, formatAddUdec_eq buf len value, Buffer.appended_addAll len buf _⟩
  · intro n
    have hbits : ∀ d ∈ Numeral.low 2 n value.toNat, d < 2 :=
      fun d hd => Numeral.lt_of_mem_low (by decide) hd
    have hhex : ∀ d ∈ Numeral.low 2 n value.toNat, d < 16 :=
      fun d hd => Nat.lt_trans (hbits d hd) (by decide)
    refine ⟨binText n value, ?_, ⟨_, ?_, hbits, Numeral.value_low⟩, ?_⟩
    · rw [binText_eq, List.length_map, Numeral.length_low]
    · rw [binText_eq]
      exact mapM_digitOf hhex
    · intro buf len
      rw [formatAddBin_eq]
      exact Buffer.appended_addAll len buf _

end SecOS
