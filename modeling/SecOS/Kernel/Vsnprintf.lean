-- SUMMARY: A whole call of the formatter: the renderings of the directives, cut to the buffer, and a terminating zero.
import SecOS.Kernel.Format

/-!
# Calls of the formatter

What is left in the caller's buffer after a call, in terms of the directives of the
format, and which part of the buffer may be written.
-/

namespace SecOS

open X86

/-- `data'` is `data` with `s` stored from its start and a zero behind it. -/
structure Stored (s : List Byte) (data data' : Nat → Byte) : Prop where
  text : ∀ i (h : i < s.length), data' i = s[i]
  terminator : data' s.length = 0
  frame : ∀ i, s.length < i → data' i = data i

/-- Calls that fill the buffer `data` of `len` bytes change nothing behind its end. -/
def WritesWithin (len : Nat) (call : (Nat → Byte) → Except Halt ((Nat → Byte) × Nat)) : Prop :=
  ∀ data data' n, call data = .ok (data', n) → ∀ i, len ≤ i → data' i = data i

variable {mem : Mem} {len k : Nat} {st : FmtState} {params : Word} {data : Nat → Byte}
variable {d : Directive} {ds pre post : List Directive} {format rest : List Byte}
variable {tail : Option (List Modifier)}

/-! ## The whole call -/

theorem outside_init (data : Nat → Byte) (params : Word) :
    Outside (vsnprintfInit data params) := ⟨rfl, rfl⟩

variable (mem len tail) in
/-- What is left of a conversion at the end of the format renders nothing. -/
theorem vsnprintfLoop_tail (h : Outside st) :
    ∃ st', vsnprintfLoop mem len st (insideText tail) = .ok st' ∧ st'.buf = st.buf := by
  cases tail with
  | none => exact ⟨st, rfl, rfl⟩
  | some mods => exact ⟨_, vsnprintfLoop_modsText h mods, rfl⟩

variable (mem params) in
theorem vsnprintf_eq (hds : ∀ d ∈ ds, d.Valid) (tail : Option (List Modifier))
    (data : Nat → Byte) (len : Nat) :
    let buf := Buffer.addAll (roomFor len) { data, sz := 0 } (renderAll mem params ds)
    vsnprintf mem data len (formatText ds ++ insideText tail) params
      = .ok (Function.update buf.data buf.sz 0, buf.sz + 1) := by
  intro buf
  obtain ⟨st₁, hloop₁, hout₁, hbuf₁, -⟩ := vsnprintfLoop_directives mem (roomFor len)
    (outside_init data params) hds
  obtain ⟨st₂, hloop₂, hbuf₂⟩ := vsnprintfLoop_tail mem (roomFor len) tail hout₁
  have hloop : vsnprintfLoop mem (roomFor len) (vsnprintfInit data params)
      (formatText ds ++ insideText tail) = .ok st₂ := by
    rw [vsnprintfLoop_append, hloop₁]
    exact hloop₂
  have hbuf : st₂.buf = buf := hbuf₂.trans hbuf₁
  rw [vsnprintf, hloop, ← hbuf]
  rfl

/-- As much as fits is stored, and a zero behind it. -/
theorem stored_addAll (room : Nat) (data : Nat → Byte) (s : List Byte) :
    let buf := Buffer.addAll room { data, sz := 0 } s
    buf.sz = min room s.length ∧
      Stored (s.take (min room s.length)) data (Function.update buf.data buf.sz 0) := by
  intro buf
  have happ : Buffer.Appended room s { data, sz := 0 } buf := Buffer.appended_addAll ..
  have hsz : buf.sz = min room s.length := by
    rw [happ.sz]
    simp only
    omega
  have hlength : (s.take (min room s.length)).length = buf.sz := by
    rw [hsz, List.length_take]
    omega
  refine ⟨hsz, ⟨?_, ?_, ?_⟩⟩
  · intro i hi
    rw [hlength] at hi
    have hdata := happ.data i (by omega) (by simp only; omega)
    rw [Function.update_of_ne (by omega), List.getElem_take, ← hdata, Nat.zero_add]
  · rw [hlength]
    exact Function.update_self ..
  · intro i hi
    rw [hlength] at hi
    rw [Function.update_of_ne (by omega)]
    exact happ.frame i (.inr (by omega))

variable (mem params) in
theorem vsnprintf_stored (hds : ∀ d ∈ ds, d.Valid) (tail : Option (List Modifier))
    (data : Nat → Byte) (len : Nat) :
    let k := min (roomFor len) (renderAll mem params ds).length
    ∃ data', vsnprintf mem data len (formatText ds ++ insideText tail) params = .ok (data', k + 1) ∧
      Stored ((renderAll mem params ds).take k) data data' := by
  intro k
  obtain ⟨hsz, hstored⟩ := stored_addAll (roomFor len) data (renderAll mem params ds)
  refine ⟨_, ?_, hstored⟩
  rw [vsnprintf_eq mem params hds, hsz]

/-! ## Compositionality -/

/-- `d` alone, with its arguments at `p`, renders `r` in every buffer that has room for it. -/
def RendersAlone (mem : Mem) (d : Directive) (p : Word) (r : List Byte) : Prop :=
  ∀ data len, r.length < len →
    ∃ data', vsnprintf mem data len d.text p = .ok (data', r.length + 1) ∧ Stored r data data'

theorem rendersAlone (hd : d.Valid) (p : Word) : RendersAlone mem d p (d.render mem p) := by
  intro data len hlen
  have hds : ∀ d' ∈ [d], d'.Valid := fun d' hd' => List.mem_singleton.mp hd' ▸ hd
  have htext : formatText [d] ++ insideText none = d.text := by simp
  have hrender : renderAll mem p [d] = d.render mem p := by simp [renderAll]
  have hroom : roomFor len = len - 1 := if_pos (by omega)
  obtain ⟨data', hcall, hstored⟩ := vsnprintf_stored mem p hds none data len
  have hk : min (roomFor len) (d.render mem p).length = (d.render mem p).length := by omega
  rw [htext, hrender, hk] at hcall
  rw [hrender, hk, List.take_length] at hstored
  exact ⟨data', hcall, hstored⟩

/-- A call stores the renderings of the directives one after another, cut to the buffer,
with a zero behind them, and returns the length with the zero. Where the arguments of a
directive are does not depend on what follows it, nor on the length, and nothing that
one directive leaves behind reaches the next. -/
theorem vsnprintf_compositional (mem : Mem) (params : Word)
    (hsplit : splitFormat format = some (ds, none)) :
    format = formatText ds ∧
      (∀ d ∈ ds, ∀ p, RendersAlone mem d p (d.render mem p)) ∧
      (∀ len data, 1 ≤ len →
        let r := renderAll mem params ds
        let k := min (len - 1) r.length
        ∃ data', vsnprintf mem data len format params = .ok (data', k + 1) ∧
          Stored (r.take k) data data') ∧
      (∀ pre post, ds = pre ++ post → ∀ len data rest, ∃ st,
        vsnprintfLoop mem len (vsnprintfInit data params) (formatText pre ++ rest)
            = vsnprintfLoop mem len st rest ∧
          st.interp = false ∧ st.lng = false ∧ st.params = argsAfter params pre) := by
  have hds := valid_of_splitFrom hsplit
  have htext := text_splitFormat hsplit
  rw [insideText_none, List.append_nil] at htext
  refine ⟨htext, fun d hd p => rendersAlone (hds d hd) p, ?_, ?_⟩
  · intro len data hlen r k
    have hcall := vsnprintf_stored mem params hds none data len
    rw [insideText_none, List.append_nil, ← htext, roomFor, if_pos (by omega)] at hcall
    exact hcall
  · intro pre post hpre len data rest
    have hvalid : ∀ d ∈ pre, d.Valid := fun d hd => hds d (hpre ▸ List.mem_append_left post hd)
    obtain ⟨st, hloop, hout, -, hparams⟩ :=
      vsnprintfLoop_directives mem len (outside_init data params) hvalid
    refine ⟨st, ?_, hout.interp, hout.lng, hparams⟩
    rw [vsnprintfLoop_append, hloop]
    rfl

/-- The law at `"n=%lld %s%%\n"`. -/
theorem vsnprintf_compositional_sample :
    ∃ ds, splitFormat ("n=%lld %s%%\n".toList.map chr) = some (ds, none) ∧
      ∀ len data, 1 ≤ len →
        let r := renderAll (fun _ => 0) 0x1000 ds
        let k := min (len - 1) r.length
        ∃ data', vsnprintf (fun _ => 0) data len ("n=%lld %s%%\n".toList.map chr) 0x1000
            = .ok (data', k + 1) ∧ Stored (r.take k) data data' := by
  have hsplit : splitFormat ("n=%lld %s%%\n".toList.map chr) = some
      ([.literal (chr 'n'), .literal (chr '='), .conversion [.l, .l] .d, .literal (chr ' '),
        .conversion [] .s, .conversion [] .percent, .literal (chr '\n')], none) := by decide +kernel
  exact ⟨_, hsplit, (vsnprintf_compositional (fun _ => 0) 0x1000 hsplit).2.2.1⟩

/-! ## The end of the buffer -/

/-- A buffer of at least one byte is not overrun. One of none is: the terminating zero
is stored without a look at the length. -/
theorem writesWithin_iff (mem : Mem) (params : Word) (len : Nat)
    (hsplit : splitFormat format = some (ds, tail)) :
    (WritesWithin len (fun data => vsnprintf mem data len format params) ∧
      WritesWithin len (fun data => snprintf mem data len format params)) ↔ len ≠ 0 := by
  have hds := valid_of_splitFrom hsplit
  have htext := text_splitFormat hsplit
  have hcall := vsnprintf_stored mem params hds tail
  rw [← htext] at hcall
  constructor
  · rintro ⟨hwithin, -⟩ rfl
    obtain ⟨data', hcall', hstored⟩ := hcall (fun _ => 1) 0
    have hzero := hstored.terminator
    have hone := hwithin _ _ _ hcall' 0 (Nat.le_refl 0)
    rw [roomFor, if_neg (fun h => h rfl), Nat.zero_min, List.take_zero, List.length_nil, hone]
      at hzero
    exact absurd hzero (by decide)
  · intro hlen
    have hwithin : WritesWithin len (fun data => vsnprintf mem data len format params) := by
      intro data data' n hdata i hi
      obtain ⟨data'', hcall', hstored⟩ := hcall data len
      cases hcall'.symm.trans hdata
      refine hstored.frame i ?_
      rw [List.length_take, roomFor, if_pos hlen]
      omega
    exact ⟨hwithin, hwithin⟩

theorem writesWithin_iff_sample :
    (WritesWithin 4 (fun data => vsnprintf (fun _ => 0) data 4 ("%d".toList.map chr) 0x1000) ∧
      WritesWithin 4 (fun data => snprintf (fun _ => 0) data 4 ("%d".toList.map chr) 0x1000))
      ↔ 4 ≠ 0 := by
  have hsplit : splitFormat ("%d".toList.map chr) = some ([.conversion [] .d], none) := by
    decide +kernel
  exact writesWithin_iff (fun _ => 0) 0x1000 4 hsplit

/-- `snprintf(buff, 0, "")` stores a zero into `buff[0]`. -/
theorem not_writesWithin_zero :
    ¬ WritesWithin 0 (fun data => snprintf (fun _ => 0) data 0 [] 0x1000) := by
  intro h
  have hone := h (fun _ => 1) (Function.update (fun _ => 1) 0 0) 1 rfl 0 (Nat.le_refl 0)
  rw [Function.update_self] at hone
  exact absurd hone (by decide)

end SecOS
