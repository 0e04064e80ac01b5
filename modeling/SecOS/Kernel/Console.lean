-- SUMMARY: What a message of the kernel says, and that the serial line carries just that.
import SecOS.Kernel.Intr
import SecOS.Kernel.IsoPrintf
import SecOS.Kernel.Uart

/-!
# Console

A message is a format and its arguments. Its text is what ISO C has `printf` print of the
two; the formatter gets it from the format and the argument words, wherever these lie, and
the driver sends it.
-/

namespace SecOS

open X86

open Iso (signedText)

/-! ## Texts -/

/-- A conversion of one word, or of a string. -/
def Conv.argText : Conv → Arg → Option (List Byte)
  | .d, .word w | .i, .word w => some (signedText w.toInt)
  | .u, .word w => some (numeralText 10 w.toNat)
  | .x, .word w => some (numeralText 16 w.toNat)
  | .p, .word w => some ([chr '0', chr 'x'] ++ numeralText 16 w.toNat)
  | .s, .text (some t) => some (t.toList.map chr)
  | _, _ => none

/-- Every argument is used, by a conversion of its type without modifiers. -/
def textOf : List Directive → List Arg → Option (List Byte)
  | [], [] => some []
  | .literal c :: ds, args => (textOf ds args).map (c :: ·)
  | .conversion [] v :: ds, a :: args => do
    let text ← v.argText a
    let rest ← textOf ds args
    return text ++ rest
  | _, _ => none

namespace Line

/-- The format as a C string. -/
def chars (l : Line) : List Byte := l.format.toList.map chr

def text (l : Line) : Option (List Byte) :=
  match splitFormat l.chars with
  | some (ds, none) => textOf ds l.args
  | _ => none

/-- The message has a text, and it fits into the buffer of `__vprintf`. -/
def Printable (l : Line) : Prop := ∃ t, l.text = some t ∧ t.length ≤ 1023

end Line

/-! ## Arguments in memory -/

/-- The argument at `p`: a word, or the address of a string. -/
def ArgAt (m : Mem) (p : Word) : Arg → Prop
  | .word w => m.read32 p = w
  | .text (some t) => cString m (m.read32 p) = t.toList.map chr
  | .text none => False

def ArgsAt (m : Mem) (p : Word) : List Arg → Prop
  | [] => True
  | a :: args => ArgAt m p a ∧ ArgsAt m (p + 4) args

/-- A string depends on its own bytes and the zero behind them. -/
theorem cString_go_congr {m m' : Mem} {a : Word} {n : Nat}
    (h : ∀ i ≤ (cString.go m n a).length, m' (a + BitVec.ofNat 32 i) = m (a + BitVec.ofNat 32 i)) :
    cString.go m' n a = cString.go m n a := by
  induction n generalizing a with
  | zero => rfl
  | succ n ih =>
    have hfirst : m' a = m a := by
      have h0 := h 0 (Nat.zero_le _)
      rwa [BitVec.add_zero] at h0
    by_cases hzero : m a = 0
    · rw [cString.go, cString.go, hfirst, if_pos hzero, if_pos hzero]
    · rw [cString.go, if_neg hzero] at h
      rw [cString.go, cString.go, hfirst, if_neg hzero, if_neg hzero]
      refine congrArg (m a :: ·) (ih fun i hi => ?_)
      have hnext : a + 1 + BitVec.ofNat 32 i = a + BitVec.ofNat 32 (i + 1) := by
        rw [BitVec.ofNat_add, BitVec.add_assoc, BitVec.add_comm 1]
        rfl
      rw [hnext]
      exact h (i + 1) (by rw [List.length_cons]; omega)

theorem cString_congr {m m' : Mem} {a : Word}
    (h : ∀ i ≤ (cString m a).length, m' (a + BitVec.ofNat 32 i) = m (a + BitVec.ofNat 32 i)) :
    cString m' a = cString m a := cString_go_congr h

variable {m : Mem} {p : Word} {v : Conv} {a : Arg} {args : List Arg} {ds : List Directive}
variable {t : List Byte} {l : Line} {ls : List Line}

/-- The formatter takes one word for such a conversion, and renders what it stands for. -/
theorem render_of_argText (h : v.argText a = some t) (ha : ArgAt m p a) :
    v.render m p (sizeAfter []) = t ∧ v.words (sizeAfter []) = 1 := by
  unfold Conv.argText at h
  split at h
  all_goals simp only [Option.some.injEq, reduceCtorEq] at h
  all_goals subst h
  · next w => exact ⟨ha ▸ idecText_signExtend _ (by decide), rfl⟩
  · next w => exact ⟨ha ▸ idecText_signExtend _ (by decide), rfl⟩
  · next w => exact ⟨ha ▸ congrArg (numeralText 10) (toNat_setWidth_of_lt _ (by decide)), rfl⟩
  · next w => exact ⟨ha ▸ congrArg (numeralText 16) (toNat_setWidth_of_lt _ (by decide)), rfl⟩
  · next w => exact ⟨ha ▸ rfl, rfl⟩
  · next t => exact ⟨ha, rfl⟩

theorem renderAll_of_textOf (h : textOf ds args = some t) (hargs : ArgsAt m p args) :
    renderAll m p ds = t := by
  induction ds generalizing p args t with
  | nil =>
    cases args with
    | nil => exact Option.some.inj h
    | cons a args => cases h
  | cons d ds ih =>
    cases d with
    | literal c =>
      have hp : p + BitVec.ofNat 32 (4 * (Directive.literal c).words) = p := BitVec.add_zero p
      rw [textOf] at h
      obtain ⟨rest, hrest, rfl⟩ := Option.map_eq_some_iff.mp h
      rw [renderAll, hp, ih hrest hargs]
      rfl
    | conversion mods v =>
      cases mods with
      | cons m mods => cases h
      | nil =>
        cases args with
        | nil => cases h
        | cons a args =>
          obtain ⟨ha, hargs⟩ := hargs
          rw [textOf] at h
          obtain ⟨text, htext, h⟩ := Option.bind_eq_some_iff.mp h
          obtain ⟨rest, hrest, h⟩ := Option.bind_eq_some_iff.mp h
          obtain ⟨hrender, hwords⟩ := render_of_argText htext ha
          have hp : p + BitVec.ofNat 32 (4 * (Directive.conversion [] v).words) = p + 4 := by
            rw [Directive.words, hwords]
            rfl
          rw [renderAll, hp, ih hrest hargs, Directive.render, hrender]
          exact Option.some.inj h

/-! ## Calls -/

theorem Line.exists_split (h : l.text = some t) :
    ∃ ds, splitFormat l.chars = some (ds, none) ∧ textOf ds l.args = some t := by
  unfold Line.text at h
  split at h
  · next ds hsplit => exact ⟨ds, hsplit, h⟩
  · cases h

/-- A call of `debug` comes to its end when the device has been ready often enough, and
has then sent the text of the message and nothing else. -/
theorem Line.sends (h : l.text = some t) (hlen : t.length ≤ 1023) (hargs : ArgsAt m p l.args)
    (vprintBuffer lsr : Nat → Byte) :
    ∃ v, printf m vprintBuffer l.chars p = .ok v ∧
      (∀ k, v.count ≤ (v.uart lsr k).sz →
        written (serialTx serialCom1) (v.uart lsr k).trace = t) ∧
      (∀ k, Polled serialCom1 (v.uart lsr k).trace) ∧
      (∀ k, v.count ≤ ((List.range k).countP fun i => uartCanSend (lsr i)) →
        v.count ≤ (v.uart lsr k).sz) := by
  obtain ⟨ds, hsplit, htext⟩ := Line.exists_split h
  have hrender := renderAll_of_textOf htext hargs
  obtain ⟨v, hv, -, -, hbuffer⟩ := vprintf_eq m p vprintBuffer hsplit
  rw [hrender, List.take_of_length_le hlen] at hbuffer
  have hsending (k : Nat) : Sending serialCom1 v.buffer v.count (v.uart lsr k) :=
    sending_uartWrite serialCom1 v.buffer v.count lsr k
  refine ⟨v, hv, fun k hdone => ?_, fun k => (hsending k).polled, fun k hk => ?_⟩
  · have hsz : (v.uart lsr k).sz = v.count := Nat.le_antisymm (hsending k).le hdone
    rw [(hsending k).written, hsz, hbuffer]
  · rw [Vprintf.uart, sz_uartWrite]
    omega

def IoEvent.port : IoEvent → BitVec 16
  | inb p _ | outb p _ => p

def IoEvent.isWrite : IoEvent → Bool
  | inb _ _ => false
  | outb _ _ => true

/-- One of the eight ports of the serial line. -/
def uartPort (port : BitVec 16) : Bool := decide ((port - serialCom1).toNat < 8)

/-- What happens on the ports in calls of `debug`, one after another: wherever the arguments
of each lie, whatever is in the buffer, and however long the device makes it wait. Before,
between and after the calls come the other accesses. -/
inductive Sent : List Line → List IoEvent → List IoEvent → Prop
  | nil : Sent [] [] []
  | cons {l : Line} {ls : List Line} {m : Mem} {p : Word} {vprintBuffer lsr : Nat → Byte}
      {v : Vprintf} {k : Nat} {others trace : List IoEvent} (hargs : ArgsAt m p l.args)
      (hcall : printf m vprintBuffer l.chars p = .ok v) (hdone : v.count ≤ (v.uart lsr k).sz)
      (hrest : Sent ls others trace) : Sent (l :: ls) others ((v.uart lsr k).trace ++ trace)
  | other (e : IoEvent) {ls : List Line} {others trace : List IoEvent}
      (hrest : Sent ls others trace) : Sent ls (e :: others) (e :: trace)

/-- A call of `debug` keeps to the ports of the line. -/
theorem port_of_mem_uart {v : Vprintf} {lsr : Nat → Byte} {k : Nat} :
    ∀ e ∈ (v.uart lsr k).trace, uartPort e.port = true := by
  have hlsr : uartPort (serialLsr serialCom1) = true := by decide
  have htx : uartPort (serialTx serialCom1) = true := by decide
  unfold Vprintf.uart
  induction k with
  | zero => simp [uartWrite]
  | succ k ih =>
    unfold uartWrite
    simp only
    split
    · unfold uartWriteStep
      simp only
      split
      · intro e he
        rw [List.mem_append, List.mem_append, List.mem_singleton, List.mem_singleton] at he
        obtain (he | rfl) | rfl := he
        · exact ih e he
        · exact hlsr
        · exact htx
      · intro e he
        rw [List.mem_append, List.mem_singleton] at he
        obtain he | rfl := he
        · exact ih e he
        · exact hlsr
    · exact ih

theorem Polled.append {port : BitVec 16} {trace trace' : List IoEvent} (h : Polled port trace)
    (h' : Polled port trace') : Polled port (trace ++ trace') := by
  intro pre value post heq
  rcases List.append_eq_append_iff.mp heq with ⟨as, rfl, htrace'⟩ | ⟨bs, htrace, hpost⟩
  · obtain ⟨pre', status, rfl, hthre⟩ := h' as value post htrace'
    exact ⟨trace ++ pre', status, (List.append_assoc ..).symm, hthre⟩
  · cases bs with
    | nil =>
      rw [List.append_nil] at htrace
      subst htrace
      obtain ⟨pre', status, hpre, -⟩ := h' [] value post hpost.symm
      simp at hpre
    | cons b bs =>
      obtain ⟨rfl, rfl⟩ := List.cons.inj hpost
      exact h pre value bs htrace

/-- An access to a port of another device. -/
theorem ne_serialTx {e : IoEvent} (he : uartPort e.port = false) :
    e.port ≠ serialTx serialCom1 := by
  intro heq
  rw [heq] at he
  exact absurd he (by decide)

theorem Polled.other {trace : List IoEvent} (h : Polled serialCom1 trace) {e : IoEvent}
    (he : uartPort e.port = false) : Polled serialCom1 (e :: trace) := by
  have hone : Polled serialCom1 [e] := by
    intro pre value post heq
    cases pre with
    | nil =>
      obtain ⟨rfl, -⟩ := List.cons.inj heq
      exact absurd rfl (ne_serialTx he)
    | cons a pre => simp at heq
  exact hone.append h

/-- The bytes on the line are the texts of the messages, in order, when nobody else has
access to it. -/
theorem Sent.written {others trace : List IoEvent} (h : Sent ls others trace)
    (hls : ∀ l ∈ ls, l.Printable) (hothers : ∀ e ∈ others, uartPort e.port = false) :
    SecOS.written (serialTx serialCom1) trace = ls.flatMap (fun l => l.text.getD []) ∧
      Polled serialCom1 trace := by
  induction h with
  | nil => exact ⟨rfl, Polled.nil⟩
  | cons hargs hcall hdone hrest ih =>
    obtain ⟨t, htext, hlen⟩ := hls _ List.mem_cons_self
    obtain ⟨v', hv', hwritten, hpolled, -⟩ := Line.sends htext hlen hargs _ _
    obtain rfl := Except.ok.inj (hcall.symm.trans hv')
    obtain ⟨hbytes, hrestPolled⟩ := ih (fun l hl => hls l (List.mem_cons_of_mem _ hl)) hothers
    refine ⟨?_, (hpolled _).append hrestPolled⟩
    rw [written_append, hwritten _ hdone, hbytes, List.flatMap_cons, htext, Option.getD_some]
  | other e hrest ih =>
    have he := hothers e List.mem_cons_self
    obtain ⟨hbytes, hpolled⟩ := ih hls fun e' he' => hothers e' (List.mem_cons_of_mem _ he')
    refine ⟨?_, hpolled.other he⟩
    rw [← hbytes]
    cases e with
    | inb p value => rfl
    | outb p value => exact List.filterMap_cons_none (if_neg (ne_serialTx he))

/-- The accesses to other devices are the others. -/
theorem Sent.filter {others trace : List IoEvent} (h : Sent ls others trace)
    (hothers : ∀ e ∈ others, uartPort e.port = false) :
    trace.filter (fun e => !uartPort e.port) = others := by
  induction h with
  | nil => rfl
  | cons hargs hcall hdone hrest ih =>
    rw [List.filter_append, ih hothers, List.filter_eq_nil_iff.mpr, List.nil_append]
    intro e he
    rw [port_of_mem_uart e he]
    exact Bool.false_ne_true
  | other e hrest ih =>
    rw [List.filter_cons, hothers e List.mem_cons_self,
      ih fun e' he' => hothers e' (List.mem_cons_of_mem _ he')]
    rfl

/-! ## Printable messages -/

/-- What the formatter must know of an argument. -/
inductive Arg.Kind where
  | word | text | missing
  deriving DecidableEq

def Arg.kind : Arg → Arg.Kind
  | .word _ => .word
  | .text (some _) => .text
  | .text none => .missing

/-- The longest text of an argument. -/
def Arg.size : Arg → Nat
  | .word _ => 11
  | .text (some t) => t.toList.length
  | .text none => 0

def Conv.takes : Conv → Arg.Kind → Bool
  | .d, .word | .i, .word | .u, .word | .x, .word | .p, .word | .s, .text => true
  | _, _ => false

def fits : List Directive → List Arg.Kind → Bool
  | [], [] => true
  | .literal _ :: ds, kinds => fits ds kinds
  | .conversion [] v :: ds, k :: kinds => v.takes k && fits ds kinds
  | _, _ => false

/-- A format of at most `n` directives for arguments of these kinds. -/
def formatFits (format : String) (kinds : List Arg.Kind) (n : Nat) : Bool :=
  match splitFormat (format.toList.map chr) with
  | some (ds, none) => fits ds kinds && decide (ds.length ≤ n)
  | _ => false

theorem length_numeralText_le {b n k : Nat} (hb : 1 < b) (hk : 0 < k) (h : n < b ^ k) :
    (numeralText b n).length ≤ k := by
  rw [numeralText, List.length_map]
  exact (Nat.length_toDigits_le_iff hb hk).mpr h

theorem length_signedText_le (w : Word) : (signedText w.toInt).length ≤ 11 := by
  have hlo := BitVec.le_toInt w
  have hhi := BitVec.toInt_lt (x := w)
  have hnumeral : (numeralText 10 w.toInt.natAbs).length ≤ 10 :=
    length_numeralText_le (by decide) (by decide) (by omega)
  unfold signedText
  rw [List.length_append]
  split
  · rw [List.length_singleton]
    omega
  · rw [List.length_nil]
    omega

theorem exists_argText (h : v.takes a.kind = true) :
    ∃ t, v.argText a = some t ∧ t.length ≤ a.size := by
  have hdecimal (w : Word) : (numeralText 10 w.toNat).length ≤ 10 :=
    length_numeralText_le (by decide) (by decide) (by omega)
  have hhex (w : Word) : (numeralText 16 w.toNat).length ≤ 8 :=
    length_numeralText_le (by decide) (by decide) (by omega)
  cases a with
  | word w =>
    cases v with
    | d => exact ⟨_, rfl, length_signedText_le w⟩
    | i => exact ⟨_, rfl, length_signedText_le w⟩
    | u => exact ⟨_, rfl, (hdecimal w).trans (Nat.le_succ 10)⟩
    | x => exact ⟨_, rfl, (hhex w).trans (Nat.le_add_right 8 3)⟩
    | p => exact ⟨_, rfl, (Nat.add_le_add_right (hhex w) 2).trans (Nat.le_succ 10)⟩
    | _ => cases h
  | text t =>
    cases t with
    | none => cases v <;> cases h
    | some t =>
      cases v with
      | s => exact ⟨_, rfl, (List.length_map _).le⟩
      | _ => cases h

theorem exists_textOf (h : fits ds (args.map Arg.kind) = true) :
    ∃ t, textOf ds args = some t ∧ t.length ≤ ds.length + (args.map Arg.size).sum := by
  induction ds generalizing args with
  | nil =>
    cases args with
    | nil => exact ⟨[], rfl, le_rfl⟩
    | cons a args => cases h
  | cons d ds ih =>
    cases d with
    | literal c =>
      obtain ⟨rest, hrest, hlen⟩ := ih h
      refine ⟨c :: rest, by rw [textOf, hrest]; rfl, ?_⟩
      rw [List.length_cons, List.length_cons]
      omega
    | conversion mods v =>
      cases mods with
      | cons m mods => cases h
      | nil =>
        cases args with
        | nil => cases h
        | cons a args =>
          rw [List.map_cons, fits, Bool.and_eq_true] at h
          obtain ⟨text, htext, htextLen⟩ := exists_argText h.1
          obtain ⟨rest, hrest, hlen⟩ := ih h.2
          refine ⟨text ++ rest, by rw [textOf, htext, hrest]; rfl, ?_⟩
          rw [List.length_append, List.length_cons, List.map_cons, List.sum_cons]
          omega

theorem Line.printable {format : String} (kinds : List Arg.Kind) (n : Nat)
    (hkinds : args.map Arg.kind = kinds) (h : formatFits format kinds n = true)
    (hn : n + (args.map Arg.size).sum ≤ 1023) : (⟨format, args⟩ : Line).Printable := by
  subst hkinds
  unfold formatFits at h
  split at h
  · next ds hsplit =>
    rw [Bool.and_eq_true, decide_eq_true_eq] at h
    obtain ⟨t, ht, hlen⟩ := exists_textOf h.1
    refine ⟨t, ?_, by omega⟩
    unfold Line.text Line.chars
    rw [hsplit]
    exact ht
  · cases h

theorem sum_size_words {k : Nat} (h : args.map Arg.kind = .replicate k .word) :
    (args.map Arg.size).sum = 11 * k := by
  induction args generalizing k with
  | nil =>
    cases k with
    | zero => rfl
    | succ k => cases h
  | cons a args ih =>
    cases k with
    | zero => cases h
    | succ k =>
      rw [List.map_cons, List.replicate_succ, List.cons.injEq] at h
      cases a with
      | word w =>
        rw [List.map_cons, List.sum_cons, ih h.2, Arg.size]
        omega
      | text t => cases t <;> cases h.1

/-- A message with words only. -/
theorem Line.printable_words {format : String} (k n : Nat)
    (hkinds : args.map Arg.kind = .replicate k .word)
    (h : formatFits format (.replicate k .word) n = true) (hn : n + 11 * k ≤ 1023) :
    (⟨format, args⟩ : Line).Printable :=
  Line.printable _ n hkinds h (by rw [sum_size_words hkinds]; exact hn)

/-! ## The messages of the handlers -/

def Outcome.lines : Outcome → List Line
  | .ret out | .fatal out => out

theorem printable_intrReport (ctx : IntCtx) : (intrReport ctx).Printable :=
  Line.printable_words 15 300 rfl (by decide +kernel) (by decide)

theorem printable_exception {n : Nat} (h : n < 20) :
    (⟨"\nException: %s\n", [.text exceptionNames[n]?]⟩ : Line).Printable := by
  have hall : ∀ n < 20, (exceptionNames[n]?.elim 0 fun t => t.toList.length + 1) ≠ 0 ∧
      (exceptionNames[n]?.elim 0 fun t => t.toList.length + 1) ≤ 31 := by
    decide +kernel
  obtain ⟨hsome, hlen⟩ := hall n h
  cases hname : exceptionNames[n]? with
  | none =>
    rw [hname] at hsome
    exact absurd rfl hsome
  | some t =>
    rw [hname] at hlen
    refine Line.printable [.text] 20 rfl (by decide +kernel) ?_
    simp only [Option.elim_some] at hlen
    simp only [Arg.size, List.map_cons, List.map_nil, List.sum_cons, List.sum_nil]
    omega

theorem printable_excpHdlr {cpu : Cpu} {ctx : IntCtx} (h : blow ctx.nr < 20) :
    ∀ l ∈ (excpHdlr cpu ctx).lines, l.Printable := by
  intro l hl
  unfold excpHdlr at hl
  simp only at hl
  split at hl
  · simp only [Outcome.lines, List.mem_append, List.mem_singleton] at hl
    rcases hl with rfl | rfl
    · exact printable_exception h
    · exact Line.printable_words 0 20 rfl (by decide +kernel) (by decide)
  · simp only [Outcome.lines, List.mem_append, List.mem_cons, List.not_mem_nil, or_false] at hl
    rcases hl with (rfl | hl) | rfl | rfl | rfl
    · exact printable_exception h
    · split at hl
      · obtain rfl := List.mem_singleton.mp hl
        exact Line.printable_words 5 50 rfl (by decide +kernel) (by decide)
      · split at hl
        · obtain rfl := List.mem_singleton.mp hl
          exact Line.printable_words 4 50 rfl (by decide +kernel) (by decide)
        · cases hl
    all_goals exact Line.printable_words 1 20 rfl (by decide +kernel) (by decide)

/-- Whatever the context says, as long as its vector has a name or is none of an exception. -/
theorem printable_intrHdlr {cpu : Cpu} {ctx : IntCtx} (h : blow ctx.nr < 20 ∨ 32 ≤ blow ctx.nr) :
    ∀ l ∈ (intrHdlr cpu ctx).lines, l.Printable := by
  intro l hl
  unfold intrHdlr intrHdlrWith at hl
  simp only at hl
  have hnr : nrExcp = 32 := rfl
  by_cases hexcp : blow ctx.nr < nrExcp
  · have hout : ∀ l ∈ (excpHdlr cpu ctx).lines, l.Printable := printable_excpHdlr (by omega)
    rw [if_pos hexcp] at hl
    cases hcase : excpHdlr cpu ctx with
    | ret out | fatal out =>
      rw [hcase] at hl hout
      rcases List.mem_cons.mp hl with rfl | hl
      · exact printable_intrReport ctx
      · exact hout l hl
  · rw [if_neg hexcp] at hl
    simp only [Outcome.lines, List.mem_cons, List.not_mem_nil, or_false] at hl
    rcases hl with rfl | rfl
    · exact printable_intrReport ctx
    · exact Line.printable_words 1 20 rfl (by decide +kernel) (by decide)

/-- The report names the exception. -/
theorem mem_lines_intrHdlr (c : Cpu) (ctx : IntCtx) (hv : blow ctx.nr < nrExcp) :
    ⟨"\nException: %s\n", [.text exceptionNames[blow ctx.nr]?]⟩ ∈ (intrHdlr c ctx).lines := by
  have hexcp : ⟨"\nException: %s\n", [.text exceptionNames[blow ctx.nr]?]⟩
      ∈ (excpHdlr c ctx).lines := by
    unfold excpHdlr
    simp only
    split <;> simp [Outcome.lines]
  unfold intrHdlr intrHdlrWith
  simp only [if_pos hv]
  cases hcase : excpHdlr c ctx with
  | ret out | fatal out =>
    rw [hcase] at hexcp
    exact List.mem_cons_of_mem _ hexcp

/-- What every exception but the non-maskable interrupt comes to. -/
theorem fatal_intrHdlr (c : Cpu) {ctx : IntCtx} {n : Nat} (hn : n < 20) (hnmi : n ≠ nmiExcp)
    (hblow : blow ctx.nr = n) :
    ∃ out name, exceptionNames[n]? = some name ∧ intrHdlr c ctx = .fatal out ∧
      ⟨"\nException: %s\n", [.text (some name)]⟩ ∈ out ∧ ∀ l ∈ out, l.Printable := by
  subst hblow
  have hlen : exceptionNames.length = 20 := rfl
  have hlt : blow ctx.nr < nrExcp := hn.trans (by decide)
  have hname := List.getElem?_eq_getElem (l := exceptionNames) (i := blow ctx.nr) (by omega)
  obtain ⟨out, hout⟩ : ∃ out, intrHdlr c ctx = .fatal out := by
    unfold intrHdlr intrHdlrWith excpHdlr
    simp only [if_pos hlt, if_neg hnmi]
    exact ⟨_, rfl⟩
  have hmem := mem_lines_intrHdlr c ctx hlt
  have hall := (printable_intrHdlr (.inl hn) : ∀ l ∈ (intrHdlr c ctx).lines, l.Printable)
  rw [hname] at hmem
  rw [hout] at hmem hall
  exact ⟨out, _, hname, hout, hmem, hall⟩

end SecOS
