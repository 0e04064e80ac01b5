-- SUMMARY: The formats of ISO C that the callers may use, the argument words and the rendering that ISO C gives them, and where the formatter agrees.
import SecOS.Kernel.Vsnprintf

/-!
# ISO C formats

`print.h` declares `printf`, `snprintf` and `panic` with the attribute that makes the
compiler check their callers by the rules of ISO C. These rules are stated here for
the i386, apart from the formatter, and compared with it.
-/

namespace SecOS

open X86

namespace Iso

inductive Length where
  | none | h | hh | l | ll
  deriving DecidableEq

inductive NumConv where
  | d | i | u | x | X
  deriving DecidableEq

/-- A piece of a format. The digits are a width, which asks for padding. -/
inductive Item where
  | literal (c : Byte) (hc : c ≠ chr '%')
  | percent
  | num (width : List (Fin 10)) (length : Length) (v : NumConv)
  | char (width : List (Fin 10))
  | string (width : List (Fin 10))
  | pointer (width : List (Fin 10))

/-! ## Text -/

def Length.mods : Length → List Modifier
  | none => []
  | h => [.h]
  | hh => [.h, .h]
  | l => [.l]
  | ll => [.l, .l]

def NumConv.conv : NumConv → Conv
  | d => .d
  | i => .i
  | u => .u
  | x => .x
  | X => .X

/-- The piece as the formatter reads it. -/
def Item.directive : Item → Directive
  | literal c _ => .literal c
  | percent => .conversion [] .percent
  | num width length v => .conversion (width.map .digit ++ length.mods) v.conv
  | char width => .conversion (width.map .digit) .c
  | string width => .conversion (width.map .digit) .s
  | pointer width => .conversion (width.map .digit) .p

def Item.text (it : Item) : List Byte := it.directive.text

def itemsText (items : List Item) : List Byte := items.flatMap Item.text

/-! ## Arguments -/

/-- `int`, `long` and pointers take one word of the argument list, `long long` takes two. -/
def Item.words : Item → Nat
  | literal _ _ | percent => 0
  | num _ .ll _ => 2
  | num _ _ _ => 1
  | char _ | string _ | pointer _ => 1

/-- Where the argument behind those of `items` is. -/
def args (params : Word) (items : List Item) : Word :=
  params + BitVec.ofNat 32 (4 * (items.map Item.words).sum)

/-- The value of a signed conversion: the argument as the type that the length names. -/
def signedArg (mem : Mem) (p : Word) : Length → Int
  | .none | .l => (mem.read32 p).toInt
  | .h => ((mem.read32 p).setWidth 16).toInt
  | .hh => ((mem.read32 p).setWidth 8).toInt
  | .ll => (mem.read32 (p + 4) ++ mem.read32 p).toInt

def unsignedArg (mem : Mem) (p : Word) : Length → Nat
  | .none | .l => (mem.read32 p).toNat
  | .h => ((mem.read32 p).setWidth 16).toNat
  | .hh => ((mem.read32 p).setWidth 8).toNat
  | .ll => (mem.read32 (p + 4) ++ mem.read32 p).toNat

/-! ## Renderings -/

def signedText (v : Int) : List Byte :=
  (if v < 0 then [chr '-'] else []) ++ numeralText 10 v.natAbs

/-- What a piece stands for, with its argument at `p`: without padding, and with the
letters of hexadecimal digits in lower case. The form of a pointer is up to the
implementation. -/
def Item.render (mem : Mem) (p : Word) : Item → List Byte
  | literal c _ => [c]
  | percent => [chr '%']
  | num _ length .d | num _ length .i => signedText (signedArg mem p length)
  | num _ length .u => numeralText 10 (unsignedArg mem p length)
  | num _ length .x | num _ length .X => numeralText 16 (unsignedArg mem p length)
  | char _ => [(mem.read32 p).setWidth 8]
  | string _ => cString mem (mem.read32 p)
  | pointer _ => [chr '0', chr 'x'] ++ numeralText 16 (mem.read32 p).toNat

end Iso

open Iso

/-- The formatter takes for each piece the words ISO C assigns to it, and renders the
argument that lies there. -/
def InSync (mem : Mem) (params : Word) (items : List Item) : Prop :=
  ∀ pre it post, items = pre ++ it :: post → ∀ len data, ∃ st st',
    vsnprintfLoop mem len (vsnprintfInit data params) (itemsText pre) = .ok st ∧
      st.params = args params pre ∧
      vsnprintfLoop mem len st it.text = .ok st' ∧
      st'.params = args params (pre ++ [it]) ∧
      Buffer.Appended len (it.render mem (args params pre)) st.buf st'.buf

/-- The pieces that the formatter gets wrong: `%X` of anything but `long long`, for
which it takes two words all the same, and the least `long long` as a signed number. -/
def Iso.Item.Misread (mem : Mem) (p : Word) : Item → Prop
  | num _ length .X => length ≠ .ll
  | num _ .ll .d | num _ .ll .i => mem.read32 (p + 4) ++ mem.read32 p = BitVec.intMin 64
  | _ => False

variable {mem : Mem} {p params : Word} {len size : Nat} {it : Item} {items pre post : List Item}
variable {value : BitVec 64}

/-! ## Lengths -/

theorem foldl_run_digits (width : List (Fin 10)) (r : Bool × Nat) :
    (width.map Modifier.digit).foldl Modifier.run r = r := by
  induction width generalizing r with
  | nil => rfl
  | cons d width ih => exact ih r

theorem sizeAfter_mods (width : List (Fin 10)) (length : Length) :
    sizeAfter (width.map .digit ++ length.mods)
      = match length with
        | .none | .l => 4
        | .h => 2
        | .hh => 1
        | .ll => 8 := by
  unfold sizeAfter
  rw [List.foldl_append, foldl_run_digits]
  cases length <;> rfl

/-! ## Values -/

theorem idecText_of_ne (h : value ≠ BitVec.intMin 64) : idecText value = signedText value.toInt :=
  if_neg h

/-- The sign extension of a shorter value keeps it, and is not the least value. -/
theorem idecText_signExtend {w : Nat} (v : BitVec w) (hw : w < 64) :
    idecText (v.signExtend 64) = signedText v.toInt := by
  have hvalue : (v.signExtend 64).toInt = v.toInt := BitVec.toInt_signExtend_of_le (by omega)
  have hne : v.signExtend 64 ≠ BitVec.intMin 64 := by
    intro h
    rw [h] at hvalue
    have hle := BitVec.le_toInt v
    have hlt : (2 : Int) ^ (w - 1) < 2 ^ 63 := by
      exact_mod_cast Nat.pow_lt_pow_right (by decide) (by omega)
    have hmin : (BitVec.intMin 64).toInt = -2 ^ 63 := by decide
    omega
  rw [idecText_of_ne hne, hvalue]

theorem toNat_setWidth_of_lt {w : Nat} (v : BitVec w) (hw : w ≤ 64) :
    (v.setWidth 64).toNat = v.toNat := by
  rw [BitVec.toNat_setWidth]
  exact Nat.mod_eq_of_lt (Nat.lt_of_lt_of_le v.isLt (Nat.pow_le_pow_right (by decide) hw))

theorem unsignedArg_eq (mem : Mem) (p : Word) (width : List (Fin 10)) (length : Length) :
    (vaArgUnsigned mem p (sizeAfter (width.map .digit ++ length.mods))).1.toNat
      = unsignedArg mem p length := by
  rw [sizeAfter_mods]
  cases length with
  | none => exact toNat_setWidth_of_lt _ (by decide)
  | h => exact toNat_setWidth_of_lt ((mem.read32 p).setWidth 16) (by decide)
  | hh => exact toNat_setWidth_of_lt ((mem.read32 p).setWidth 8) (by decide)
  | l => exact toNat_setWidth_of_lt _ (by decide)
  | ll => rfl

theorem signedArg_eq (mem : Mem) (p : Word) (width : List (Fin 10)) (length : Length)
    (h : length = .ll → mem.read32 (p + 4) ++ mem.read32 p ≠ BitVec.intMin 64) :
    idecText (vaArgSigned mem p (sizeAfter (width.map .digit ++ length.mods))).1
      = signedText (signedArg mem p length) := by
  rw [sizeAfter_mods]
  cases length with
  | none => exact idecText_signExtend _ (by decide)
  | h => exact idecText_signExtend ((mem.read32 p).setWidth 16) (by decide)
  | hh => exact idecText_signExtend ((mem.read32 p).setWidth 8) (by decide)
  | l => exact idecText_signExtend _ (by decide)
  | ll => exact idecText_of_ne (h rfl)

/-! ## One piece -/

theorem valid_directive (it : Item) : it.directive.Valid := by
  cases it with
  | literal c hc => exact hc
  | _ => exact trivial

/-- The pieces that are read right take the words they should. -/
theorem words_directive (h : ¬ it.Misread mem p) : it.directive.words = it.words := by
  cases it with
  | num width length v =>
    unfold Item.directive Directive.words
    simp only
    rw [sizeAfter_mods]
    cases v with
    | X =>
      have hll : length = .ll := Classical.not_not.mp h
      subst hll
      rfl
    | _ => cases length <;> rfl
  | _ => rfl

theorem render_directive (h : ¬ it.Misread mem p) :
    it.directive.render mem p = it.render mem p := by
  cases it with
  | num width length v =>
    have hmin : v = .d ∨ v = .i → length = .ll →
        mem.read32 (p + 4) ++ mem.read32 p ≠ BitVec.intMin 64 := by
      rintro (rfl | rfl) rfl
      · exact h
      · exact h
    cases v with
    | d => exact signedArg_eq mem p width length (hmin (.inl rfl))
    | i => exact signedArg_eq mem p width length (hmin (.inr rfl))
    | u => exact congrArg (numeralText 10) (unsignedArg_eq mem p width length)
    | x => exact congrArg (numeralText 16) (unsignedArg_eq mem p width length)
    | X =>
      have hll : length = .ll := Classical.not_not.mp h
      subst hll
      rfl
  | _ => rfl

/-! ## Sequences of pieces -/

@[simp] theorem args_nil (params : Word) : args params [] = params := BitVec.add_zero _

theorem args_cons (params : Word) (it : Item) (items : List Item) :
    args params (it :: items) = args (params + BitVec.ofNat 32 (4 * it.words)) items := by
  unfold args
  rw [List.map_cons, List.sum_cons, Nat.mul_add, BitVec.ofNat_add, BitVec.add_assoc]

theorem args_snoc (params : Word) (items : List Item) (it : Item) :
    args params (items ++ [it]) = args params items + BitVec.ofNat 32 (4 * it.words) := by
  unfold args
  rw [List.map_append, List.sum_append, Nat.mul_add, BitVec.ofNat_add, BitVec.add_assoc]
  simp

/-- No piece is misread where ISO C has its argument. -/
def ReadRight (mem : Mem) (params : Word) (items : List Item) : Prop :=
  ∀ pre it post, items = pre ++ it :: post → ¬ it.Misread mem (args params pre)

theorem ReadRight.head (h : ReadRight mem params (it :: items)) : ¬ it.Misread mem params := by
  have hit := h [] it items rfl
  rwa [args_nil] at hit

theorem ReadRight.rest (h : ReadRight mem params (it :: items)) :
    ReadRight mem (params + BitVec.ofNat 32 (4 * it.words)) items := by
  intro pre it' post hitems
  have hit := h (it :: pre) it' post (by rw [hitems, List.cons_append])
  rwa [args_cons] at hit

theorem ReadRight.initial (h : ReadRight mem params (pre ++ post)) : ReadRight mem params pre := by
  intro pre' it post' hpre
  exact h pre' it (post' ++ post) (by rw [hpre, List.append_assoc, List.cons_append])

theorem argsAfter_directives (h : ReadRight mem params items) :
    argsAfter params (items.map Item.directive) = args params items := by
  induction items generalizing params with
  | nil => exact (args_nil params).symm
  | cons it items ih =>
    rw [List.map_cons, argsAfter, words_directive h.head, ih h.rest, args_cons]

theorem itemsText_eq (items : List Item) :
    itemsText items = formatText (items.map Item.directive) := by
  unfold itemsText formatText
  rw [List.flatMap_map]
  rfl

/-- The formatter before a piece: at its argument when what stands before is read right. -/
theorem vsnprintfLoop_items (mem : Mem) (params : Word) (len : Nat) (data : Nat → Byte)
    (items : List Item) :
    ∃ st, vsnprintfLoop mem len (vsnprintfInit data params) (itemsText items) = .ok st ∧
      Outside st ∧ st.params = argsAfter params (items.map Item.directive) ∧
      st.buf = Buffer.addAll len { data, sz := 0 }
        (renderAll mem params (items.map Item.directive)) := by
  have hvalid : ∀ d ∈ items.map Item.directive, d.Valid := by
    intro d hd
    obtain ⟨it, -, rfl⟩ := List.mem_map.mp hd
    exact valid_directive it
  obtain ⟨st, hloop, hout, hbuf, hparams⟩ :=
    vsnprintfLoop_directives mem len (outside_init data params) hvalid
  exact ⟨st, by rw [itemsText_eq, hloop], hout, hparams, hbuf⟩

theorem inSync_of_readRight (h : ReadRight mem params items) : InSync mem params items := by
  intro pre it post hitems len data
  have hit := h pre it post hitems
  have hpre : ReadRight mem params pre := (hitems ▸ h).initial
  obtain ⟨st, hloop, hout, hparams, -⟩ := vsnprintfLoop_items mem params len data pre
  rw [argsAfter_directives hpre] at hparams
  obtain ⟨st', hstep, -, hbuf', hparams'⟩ :=
    vsnprintfLoop_directive mem len hout (valid_directive it)
  rw [hparams] at hbuf' hparams'
  refine ⟨st, st', hloop, hparams, hstep, ?_, ?_⟩
  · rw [hparams', words_directive hit, args_snoc]
  · rw [hbuf', render_directive hit]
    exact Buffer.appended_addAll len st.buf _

/-- In a buffer with room for everything, what is appended is what the code renders. -/
theorem InSync.render_eq (h : InSync mem params items) (hitems : items = pre ++ it :: post) :
    it.render mem (args params pre) = it.directive.render mem (args params pre) := by
  let len := (renderAll mem params (pre.map Item.directive)).length
    + (it.render mem (args params pre)).length
    + (it.directive.render mem (args params pre)).length
  obtain ⟨st, st', hloop, hparams, hstep, -, happ⟩ := h pre it post hitems len (fun _ => 0)
  obtain ⟨st₁, hloop₁, hout, -, hbuf⟩ := vsnprintfLoop_items mem params len (fun _ => 0) pre
  cases hloop.symm.trans hloop₁
  obtain ⟨st₂, hstep₂, -, hbuf₂, -⟩ := vsnprintfLoop_directive mem len hout (valid_directive it)
  cases hstep.symm.trans hstep₂
  have happ₂ := Buffer.appended_addAll len st.buf (it.directive.render mem st.params)
  rw [← hbuf₂, hparams] at happ₂
  have hsz : st.buf.sz = (renderAll mem params (pre.map Item.directive)).length := by
    rw [hbuf, Buffer.sz_addAll (Nat.zero_le _)]
    simp only [len]
    omega
  exact happ.unique happ₂ (by simp only [len]; omega) (by simp only [len]; omega)

/-- Where the argument list goes on behind a piece. -/
theorem InSync.words_eq (h : InSync mem params items) (hitems : items = pre ++ it :: post) :
    BitVec.ofNat 32 (4 * it.directive.words) = BitVec.ofNat 32 (4 * it.words) := by
  obtain ⟨st, st', hloop, hparams, hstep, hparams', -⟩ := h pre it post hitems 0 (fun _ => 0)
  obtain ⟨st₁, hloop₁, hout, -, -⟩ := vsnprintfLoop_items mem params 0 (fun _ => 0) pre
  cases hloop.symm.trans hloop₁
  obtain ⟨st₂, hstep₂, -, -, hparams₂⟩ := vsnprintfLoop_directive mem 0 hout (valid_directive it)
  cases hstep.symm.trans hstep₂
  rw [hparams', hparams, args_snoc] at hparams₂
  exact (BitVec.add_right_inj _).mp hparams₂.symm

theorem idecText_intMin_ne :
    signedText (BitVec.intMin 64).toInt ≠ idecText (BitVec.intMin 64) := by decide +kernel

/-- The least `long long` is rendered wrong. -/
theorem signedText_ne_of_misread {width : List (Fin 10)} {length : Length} {v : NumConv}
    (hv : v = .d ∨ v = .i) (hmis : (Item.num width length v).Misread mem p)
    (h : (Item.num width length v).render mem p
      = (Item.num width length v).directive.render mem p) : False := by
  cases length with
  | ll =>
    have hmin : mem.read32 (p + 4) ++ mem.read32 p = BitVec.intMin 64 := by
      rcases hv with rfl | rfl
      · exact hmis
      · exact hmis
    have hrender : signedText (signedArg mem p .ll)
        = idecText (vaArgSigned mem p (sizeAfter (width.map .digit ++ Length.ll.mods))).1 := by
      rcases hv with rfl | rfl
      · exact h
      · exact h
    rw [sizeAfter_mods] at hrender
    have hvalue : (vaArgSigned mem p 8).1 = BitVec.intMin 64 := hmin
    unfold signedArg at hrender
    simp only [hvalue, hmin] at hrender
    exact idecText_intMin_ne hrender
  | _ => rcases hv with rfl | rfl <;> exact hmis

/-- A piece that is misread takes the wrong words or renders the wrong text. -/
theorem InSync.not_misread (h : InSync mem params items) (hitems : items = pre ++ it :: post) :
    ¬ it.Misread mem (args params pre) := by
  intro hmis
  have hrender := h.render_eq hitems
  have hwords := h.words_eq hitems
  cases it with
  | num width length v =>
    cases v with
    | X =>
      have hll : length ≠ .ll := hmis
      have hone : (Item.num width length .X).words = 1 := by
        cases length with
        | ll => exact absurd rfl hll
        | _ => rfl
      have htwo : (Item.num width length .X).directive.words = 2 := rfl
      rw [hone, htwo] at hwords
      exact absurd hwords (by decide)
    | d => exact signedText_ne_of_misread (.inl rfl) hmis hrender
    | i => exact signedText_ne_of_misread (.inr rfl) hmis hrender
    | u => exact (hmis : False)
    | x => exact (hmis : False)
  | _ => exact hmis

/-- The formatter follows ISO C exactly when no piece is misread where ISO C has its
argument. -/
theorem inSync_iff (mem : Mem) (params : Word) (items : List Item) :
    InSync mem params items ↔
      ∀ pre it post, items = pre ++ it :: post → ¬ it.Misread mem (args params pre) := by
  constructor
  · intro h pre it post hitems
    exact h.not_misread hitems
  · exact inSync_of_readRight

/-- `printf("%X %d", 5, 7)`: the first conversion takes both arguments. -/
theorem not_inSync_upperHex :
    ¬ InSync (Mem.writeWords (fun _ => 0) 0x1000 [5, 7]) 0x1000
      [.num [] .none .X, .literal (chr ' ') (by decide), .num [] .none .d] := by
  intro h
  have hmis : (Item.num [] .none .X).Misread (Mem.writeWords (fun _ => 0) 0x1000 [5, 7])
      (args 0x1000 []) := by
    intro hll
    cases hll
  exact h.not_misread (List.nil_append _).symm hmis

end SecOS
