-- SUMMARY: The task functions as the compiler translates them without optimisation, and that this code does what they say.
import SecOS.Exam.Record
import SecOS.Exam.Sample

/-!
# Code of the tasks

The build names no optimisation, so `counter` lives on the stack of its function, and is
loaded from there before each access. The instructions are those of such a translation, at
the addresses of the sample image.
-/

namespace SecOS

open X86

/-! ## Instructions -/

inductive UserInstr where
  | push (r : Reg)
  | pop (r : Reg)
  /-- `push d(b)` -/
  | pushMem (b : Reg) (d : Word)
  | mov (dst src : Reg)
  | sub (n : Word) (r : Reg)
  | add (n : Word) (r : Reg)
  /-- `movl $v, d(b)` -/
  | movl (v : Word) (b : Reg) (d : Word)
  /-- `mov d(b), dst` -/
  | load (b : Reg) (d : Word) (dst : Reg)
  /-- `mov src, d(b)` -/
  | store (src b : Reg) (d : Word)
  /-- `lea d(b), dst` -/
  | lea (b : Reg) (d : Word) (dst : Reg)
  | jmp (a : Word)
  | call (a : Word)
  | ret
  | nop
  | int (n : Fin 256)

namespace Machine

namespace Regs

def get (r : Regs) : Reg → Word
  | .eax => r.eax
  | .ecx => r.ecx
  | .edx => r.edx
  | .ebx => r.ebx
  | .esp => r.esp
  | .ebp => r.ebp
  | .esi => r.esi
  | .edi => r.edi

def set (r : Regs) (reg : Reg) (v : Word) : Regs :=
  match reg with
  | .eax => { r with eax := v }
  | .ecx => { r with ecx := v }
  | .edx => { r with edx := v }
  | .ebx => { r with ebx := v }
  | .esp => { r with esp := v }
  | .ebp => { r with ebp := v }
  | .esi => { r with esi := v }
  | .edi => { r with edi := v }

/-- An instruction that ends with these registers; the data segments stay as they are. -/
def toStep (r : Regs) (stores : List (Word × Byte)) : UserStep where
  eax := r.eax
  ecx := r.ecx
  edx := r.edx
  ebx := r.ebx
  esp := r.esp
  ebp := r.ebp
  esi := r.esi
  edi := r.edi
  eip := r.eip
  eflags := r.eflags
  cs := r.cs
  ss := r.ss
  ds := d3Sel
  es := d3Sel
  fs := d3Sel
  gs := d3Sel
  stores := stores

end Regs

/-- The word at an address of a task. -/
def readWord (view : Word → Option Byte) (a : Word) : Word :=
  let byte (k : Nat) : Byte := (view (a + BitVec.ofNat 32 k)).getD 0
  byte 3 ++ byte 2 ++ byte 1 ++ byte 0

/-- The status flags of a result: carry and overflow as given, and the carry out of bit 3. -/
def statusFlags (w : Word) (carry aux overflow : Bool) : Word :=
  let bit (k : Nat) (p : Bool) : Word := if p then 1 <<< k else 0
  let parity : Bool := (List.range 8).foldl (fun p k => p ^^ w.getLsbD k) true
  bit 0 carry ||| bit 2 parity ||| bit 4 aux ||| bit 6 (w == 0) ||| bit 7 w.msb ||| bit 11 overflow

def subFlags (a b : Word) : Word :=
  statusFlags (a - b) (a.ult b) ((a.setWidth 4).ult (b.setWidth 4))
    ((a ^^^ b) &&& (a ^^^ (a - b))).msb

def addFlags (a b : Word) : Word :=
  statusFlags (a + b) ((a + b).ult a) (((a + b).setWidth 4).ult (a.setWidth 4))
    (~~~(a ^^^ b) &&& (a ^^^ (a + b))).msb

/-- Registers and stores of an instruction; `r` has EIP at the next one already. -/
def execUser (view : Word → Option Byte) (r : Regs) : UserInstr → Regs × List (Word × Byte)
  | .push reg => ({ r with esp := r.esp - 4 }, wordStores (r.esp - 4) (r.get reg))
  | .pop reg => ({ r with esp := r.esp + 4 }.set reg (readWord view r.esp), [])
  | .pushMem b d =>
    ({ r with esp := r.esp - 4 }, wordStores (r.esp - 4) (readWord view (r.get b + d)))
  | .mov dst src => (r.set dst (r.get src), [])
  | .sub n reg =>
    ({ r with eflags := Eflags.blend r.eflags (subFlags (r.get reg) n) Eflags.status }.set reg
      (r.get reg - n), [])
  | .add n reg =>
    ({ r with eflags := Eflags.blend r.eflags (addFlags (r.get reg) n) Eflags.status }.set reg
      (r.get reg + n), [])
  | .movl v b d => (r, wordStores (r.get b + d) v)
  | .load b d dst => (r.set dst (readWord view (r.get b + d)), [])
  | .store src b d => (r, wordStores (r.get b + d) (r.get src))
  | .lea b d dst => (r.set dst (r.get b + d), [])
  | .jmp a => ({ r with eip := a }, [])
  | .call a => ({ r with eip := a, esp := r.esp - 4 }, wordStores (r.esp - 4) r.eip)
  | .ret => ({ r with eip := readWord view r.esp, esp := r.esp + 4 }, [])
  | .nop | .int _ => (r, [])

/-- A program as a list of instructions with their lengths, from address `a` on: what is at
`eip`, and the address after it. -/
def fetch : List (Word × UserInstr) → Word → Word → Option (UserInstr × Word)
  | [], _, _ => none
  | (n, ins) :: rest, a, eip => if eip = a then some (ins, a + n) else fetch rest (a + n) eip

/-- Outside its code a task spins. -/
def runCode (code : List (Word × UserInstr)) (base : Word) : Program := fun r view =>
  match fetch code base r.eip with
  | some (.int n, _) => .int n
  | some (ins, next) =>
    let (r', stores) := execUser view { r with eip := next } ins
    .instr (r'.toStep stores)
  | none => .instr (r.toStep [])

/-! ## Words of a task -/

/-- The word at `a` belongs to task `i` alone. -/
def PrivateWord (i : Fin 2) (a : Word) : Prop :=
  ∀ k < 4, userMap i (a + BitVec.ofNat 32 k) = some (a + BitVec.ofNat 32 k) ∧
    Private i (a + BitVec.ofNat 32 k)

instance (i : Fin 2) (a : Word) : Decidable (PrivateWord i a) :=
  inferInstanceAs (Decidable (∀ k < 4, _))

section Words

variable {i : Fin 2} {a b v w : Word} {own shared m : Mem}

theorem PrivateWord.within (h : PrivateWord i a) {pa : Word} (hpa : Within a 4 pa) :
    Private i pa := by
  have hk : (pa - a).toNat < 4 := hpa
  have hback : a + BitVec.ofNat 32 (pa - a).toNat = pa := by bv_omega
  exact hback ▸ (h _ hk).2

theorem PrivateWord.privateStores (h : PrivateWord i a) :
    PrivateStores i (wordStores a v) := by
  intro st hst
  have h0 : userMap i a = some a ∧ Private i a := by simpa using h 0 (by decide)
  have h1 : userMap i (a + 1) = _ ∧ _ := h 1 (by decide)
  have h2 : userMap i (a + 2) = _ ∧ _ := h 2 (by decide)
  have h3 : userMap i (a + 3) = _ ∧ _ := h 3 (by decide)
  simp only [wordStores, List.mem_cons, List.not_mem_nil, or_false] at hst
  rcases hst with rfl | rfl | rfl | rfl
  · exact ⟨_, h0⟩
  · exact ⟨_, h1⟩
  · exact ⟨_, h2⟩
  · exact ⟨_, h3⟩

theorem privateStores_nil : PrivateStores i [] := fun _ hst => by cases hst

/-- A task reads its own memory at an address of its own. -/
theorem readWord_private (h : PrivateWord i a) :
    readWord (viewOf i (joined own shared)) a = own.read32 a := by
  have hbyte (k : Nat) (hk : k < 4) :
      (viewOf i (joined own shared) (a + BitVec.ofNat 32 k)).getD 0
        = own (a + BitVec.ofNat 32 k) := by
    obtain ⟨hmap, hprivate⟩ := h k hk
    rw [viewOf, hmap, Option.map_some, Option.getD_some, joined, if_neg hprivate.not_shared]
  have h0 := hbyte 0 (by decide)
  rw [BitVec.add_zero] at h0
  simp only [readWord, hbyte 1 (by decide), hbyte 2 (by decide), hbyte 3 (by decide),
    BitVec.add_zero, h0]
  rfl

/-- And the counter at the address of the counter. -/
theorem readWord_counter (i : Fin 2) :
    readWord (viewOf i (joined own shared)) (counterOf i) = shared.read32 counterPa := by
  have hbyte (k : Nat) (hk : k < 4) :
      (viewOf i (joined own shared) (counterOf i + BitVec.ofNat 32 k)).getD 0
        = shared (counterPa + BitVec.ofNat 32 k) := by
    have hpage : SharedPage (counterPa + BitVec.ofNat 32 k) :=
      sharedPage_counter (by simp only [Within]; bv_omega)
    rw [viewOf, userMap_counterOf i hk, Option.map_some, Option.getD_some, joined, if_pos hpage]
  have h0 := hbyte 0 (by decide)
  rw [BitVec.add_zero, BitVec.add_zero] at h0
  simp only [readWord, hbyte 1 (by decide), hbyte 2 (by decide), hbyte 3 (by decide),
    BitVec.add_zero, h0]
  rfl

theorem read32_privateOf (h : PrivateWord i a) : (privateOf i m).read32 a = m.read32 a :=
  Mem.read32_congr fun _ hpa => if_pos (h.within hpa)

/-- The private memory of a task after its stores. -/
def ownAfter (i : Fin 2) (own shared : Mem) (stores : List (Word × Byte)) : Mem :=
  privateOf i (poke i (joined own shared) stores)

theorem read32_joined (h : PrivateWord i a) : (joined own shared).read32 a = own.read32 a :=
  Mem.read32_congr fun _ hpa => if_neg (h.within hpa).not_shared

theorem read32_ownAfter_nil (h : PrivateWord i a) :
    (ownAfter i own shared []).read32 a = own.read32 a :=
  (read32_privateOf h).trans (read32_joined h)

theorem read32_ownAfter (h : PrivateWord i a) :
    (ownAfter i own shared (wordStores a v)).read32 a = v := by
  rw [ownAfter, read32_privateOf h, poke_wordStores fun k hk => (h k hk).1, Mem.read32_write32]

theorem read32_ownAfter_of_disjoint (h : PrivateWord i a) (hb : PrivateWord i b)
    (hab : 4 ≤ (a - b).toNat ∧ 4 ≤ (b - a).toNat) :
    (ownAfter i own shared (wordStores a v)).read32 b = own.read32 b := by
  rw [ownAfter, read32_privateOf hb, poke_wordStores fun k hk => (h k hk).1,
    Mem.read32_write32_of_disjoint hab.1 hab.2, read32_joined hb]

theorem read32_ownAfter_counter (h : PrivateWord i a) :
    (ownAfter i own shared (wordStores (counterOf i) v)).read32 a = own.read32 a := by
  rw [ownAfter, read32_privateOf h, poke_wordStores fun k hk => userMap_counterOf i hk]
  refine (Mem.read32_congr fun pa hpa => Mem.write32_not_within fun hcounter => ?_).trans
    (read32_joined h)
  exact (h.within hpa).not_shared (sharedPage_counter hcounter)

end Words

/-! ## One instruction -/

section Code

variable {i : Fin 2} {code : List (Word × UserInstr)} {base next : Word} {r r' : Regs}
  {own shared : Mem} {ins : UserInstr} {stores : List (Word × Byte)} {p q : Point} {n : Nat}
  {At : Point → Nat → Regs → Mem → Prop}

structure UserSegs (r : Regs) : Prop where
  cs : r.cs = c3Sel
  ss : r.ss = d3Sel

theorem UserSegs.execUser {view : Word → Option Byte} (h : UserSegs r) (flags : Word) :
    UserSegs { (execUser view { r with eip := next } ins).1 with eflags := flags } := by
  obtain ⟨hcs, hss⟩ := h
  have hset (r : Regs) (reg : Reg) (v : Word) :
      (r.set reg v).cs = r.cs ∧ (r.set reg v).ss = r.ss := by
    cases reg <;> exact ⟨rfl, rfl⟩
  cases ins with
  | pop reg => exact ⟨(hset _ _ _).1.trans hcs, (hset _ _ _).2.trans hss⟩
  | mov dst src => exact ⟨(hset _ _ _).1.trans hcs, (hset _ _ _).2.trans hss⟩
  | sub n reg => exact ⟨(hset _ _ _).1.trans hcs, (hset _ _ _).2.trans hss⟩
  | add n reg => exact ⟨(hset _ _ _).1.trans hcs, (hset _ _ _).2.trans hss⟩
  | load b d dst => exact ⟨(hset _ _ _).1.trans hcs, (hset _ _ _).2.trans hss⟩
  | lea b d dst => exact ⟨(hset _ _ _).1.trans hcs, (hset _ _ _).2.trans hss⟩
  | _ => exact ⟨hcs, hss⟩

/-- What an instruction other than `int` does; the flags take care of themselves. -/
theorem runCode_fetch (hfetch : fetch code base r.eip = some (ins, next))
    (hint : ∀ n, ins ≠ .int n) (hsegs : UserSegs r)
    (hexec : execUser (viewOf i (joined own shared)) { r with eip := next } ins = (r', stores)) :
    (∃ u, runCode code base r (viewOf i (joined own shared)) = .instr u ∧ FlatSegs u ∧
      u.stores = stores) ∧
    ∃ flags, UserSegs { r' with eflags := flags } ∧
      behaviour i (runCode code base) (r, own, shared)
        = ({ r' with eflags := flags }, ownAfter i own shared stores,
            sharedOf (poke i (joined own shared) stores)) := by
  have hinstr : runCode code base r (viewOf i (joined own shared)) = .instr (r'.toStep stores) := by
    unfold runCode
    rw [hfetch]
    cases ins with
    | int n => exact absurd rfl (hint n)
    | _ => simp only [hexec]
  have hkept (flags : Word) : UserSegs { r' with eflags := flags } := by
    have h : UserSegs
        { (execUser (viewOf i (joined own shared)) { r with eip := next } ins).1 with
          eflags := flags } := hsegs.execUser flags
    rw [hexec] at h
    exact h
  have hflat := hkept r'.eflags
  refine ⟨⟨_, hinstr, ⟨hflat.cs, hflat.ss, by simp [Regs.toStep]⟩, rfl⟩,
    Eflags.blend r.eflags r'.eflags Eflags.user, hkept _, ?_⟩
  unfold behaviour
  simp only [hinstr]
  rfl

/-- An instruction of its own takes the task to the next place. -/
theorem own_of_fetch (hfetch : fetch code base r.eip = some (ins, next))
    (hint : ∀ n, ins ≠ .int n) (hsegs : UserSegs r)
    (hexec : execUser (viewOf i (joined own shared)) { r with eip := next } ins = (r', stores))
    (hstores : PrivateStores i stores)
    (hat : ∀ flags, UserSegs { r' with eflags := flags } →
      At p n { r' with eflags := flags } (ownAfter i own shared stores)) :
    (∃ u, runCode code base r (viewOf i (joined own shared)) = .instr u ∧ FlatSegs u ∧
      PrivateStores i u.stores) ∧
    At p n (behaviour i (runCode code base) (r, own, shared)).1
      (behaviour i (runCode code base) (r, own, shared)).2.1 := by
  obtain ⟨⟨u, hu, hflat, rfl⟩, flags, hkept, hbehaviour⟩ := runCode_fetch hfetch hint hsegs hexec
  rw [hbehaviour]
  exact ⟨⟨u, hu, hflat, hstores⟩, hat flags hkept⟩

/-- And so does an access that is no system call. -/
theorem access_of_fetch (hfetch : fetch code base r.eip = some (ins, next))
    (hint : ∀ n, ins ≠ .int n) (hsegs : UserSegs r)
    (hexec : execUser (viewOf i (joined own shared)) { r with eip := next } ins = (r', stores))
    (hp : p ≠ .print) (hstores : stores = p.stores.elim [] fun v => wordStores (counterOf i) v)
    (hat : ∀ flags, UserSegs { r' with eflags := flags } →
      At q n { r' with eflags := flags } (ownAfter i own shared stores)) :
    Performs i p r (runCode code base r (viewOf i (joined own shared))) ∧
    ∃ n, At q n (behaviour i (runCode code base) (r, own, shared)).1
      (behaviour i (runCode code base) (r, own, shared)).2.1 := by
  obtain ⟨⟨u, hu, hflat, rfl⟩, flags, hkept, hbehaviour⟩ := runCode_fetch hfetch hint hsegs hexec
  rw [hbehaviour, hu]
  exact ⟨⟨hp, hflat, hstores⟩, n, hat flags hkept⟩

end Code

/-! ## `task1_function` -/

def task1Base : Word := 0x404000

def task1Code : List (Word × UserInstr) :=
  [(1, .push .ebp), (2, .mov .ebp .esp), (3, .sub 16 .esp),
    (7, .movl 0x800000 .ebp (-4)), (3, .load .ebp (-4) .eax), (6, .movl 0 .eax 0),
    -- while (1)
    (3, .load .ebp (-4) .eax), (2, .load .eax 0 .eax), (3, .lea .eax 1 .edx),
    (3, .load .ebp (-4) .eax), (2, .store .edx .eax 0), (2, .jmp 0x404016)]

/-- The frame of the function with its variable. -/
structure Task1Frame (r : Regs) (own : Mem) : Prop where
  ebp : r.ebp = 0x403ff8
  counter : own.read32 0x403ff4 = counterOf 0

theorem privateWord_task1Local : PrivateWord 0 0x403ff4 := by decide

namespace Task1Frame

variable {r r' : Regs} {own shared : Mem} {v : Word}

/-- The variable is found where it was put. -/
theorem load (h : Task1Frame r own) (next : Word) :
    execUser (viewOf 0 (joined own shared)) { r with eip := next } (.load .ebp (-4) .eax)
      = ({ r with eip := next, eax := counterOf 0 }, []) := by
  have hvar : r.ebp + -4 = 0x403ff4 := by rw [h.ebp]; rfl
  simp only [execUser, Regs.get, Regs.set, hvar, readWord_private privateWord_task1Local, h.counter]

theorem keep (h : Task1Frame r own) (hebp : r'.ebp = r.ebp) :
    Task1Frame r' (ownAfter 0 own shared []) :=
  ⟨hebp.trans h.ebp, (read32_ownAfter_nil privateWord_task1Local).trans h.counter⟩

theorem access (h : Task1Frame r own) (hebp : r'.ebp = r.ebp) :
    Task1Frame r' (ownAfter 0 own shared (wordStores (counterOf 0) v)) :=
  ⟨hebp.trans h.ebp, (read32_ownAfter_counter privateWord_task1Local).trans h.counter⟩

end Task1Frame

/-- Where the code of task 1 is before each of its instructions. -/
inductive Task1At : Point → Nat → Regs → Mem → Prop
  | push {r own} (heip : r.eip = 0x404000) (hsegs : UserSegs r) (hesp : r.esp = 0x403ffc) :
      Task1At .clear 5 r own
  | frame {r own} (heip : r.eip = 0x404001) (hsegs : UserSegs r) (hesp : r.esp = 0x403ff8) :
      Task1At .clear 4 r own
  | locals {r own} (heip : r.eip = 0x404003) (hsegs : UserSegs r) (hebp : r.ebp = 0x403ff8) :
      Task1At .clear 3 r own
  | counter {r own} (heip : r.eip = 0x404006) (hsegs : UserSegs r) (hebp : r.ebp = 0x403ff8) :
      Task1At .clear 2 r own
  | clearPtr {r own} (heip : r.eip = 0x40400d) (hsegs : UserSegs r) (h : Task1Frame r own) :
      Task1At .clear 1 r own
  | clear {r own} (heip : r.eip = 0x404010) (hsegs : UserSegs r) (h : Task1Frame r own)
      (heax : r.eax = counterOf 0) : Task1At .clear 0 r own
  | loop {r own} (heip : r.eip = 0x404023) (hsegs : UserSegs r) (h : Task1Frame r own) :
      Task1At .load 2 r own
  | loadPtr {r own} (heip : r.eip = 0x404016) (hsegs : UserSegs r) (h : Task1Frame r own) :
      Task1At .load 1 r own
  | load {r own} (heip : r.eip = 0x404019) (hsegs : UserSegs r) (h : Task1Frame r own)
      (heax : r.eax = counterOf 0) : Task1At .load 0 r own
  | add {r own v} (heip : r.eip = 0x40401b) (hsegs : UserSegs r) (h : Task1Frame r own)
      (heax : r.eax = v) : Task1At (.store v) 2 r own
  | storePtr {r own v} (heip : r.eip = 0x40401e) (hsegs : UserSegs r) (h : Task1Frame r own)
      (hedx : r.edx = v + 1) : Task1At (.store v) 1 r own
  | store {r own v} (heip : r.eip = 0x404021) (hsegs : UserSegs r) (h : Task1Frame r own)
      (heax : r.eax = counterOf 0) (hedx : r.edx = v + 1) : Task1At (.store v) 0 r own

theorem task1At_own {p : Point} {n : Nat} {r : Regs} {own : Mem} (shared : Mem)
    (h : Task1At p (n + 1) r own) :
    (∃ u, runCode task1Code task1Base r (viewOf 0 (joined own shared)) = .instr u ∧ FlatSegs u ∧
      PrivateStores 0 u.stores) ∧
    Task1At p n (behaviour 0 (runCode task1Code task1Base) (r, own, shared)).1
      (behaviour 0 (runCode task1Code task1Base) (r, own, shared)).2.1 := by
  cases h with
  | push heip hsegs hesp =>
    have hfetch : fetch task1Code task1Base r.eip = some (.push .ebp, 0x404001) := by rw [heip]; rfl
    have hword : PrivateWord 0 0x403ff8 := by decide
    have htop : r.esp - 4 = 0x403ff8 := by rw [hesp]; rfl
    refine own_of_fetch hfetch (by simp) hsegs rfl ?_ fun _ hsegs' => .frame rfl hsegs' htop
    simp only [htop]
    exact hword.privateStores
  | frame heip hsegs hesp =>
    have hfetch : fetch task1Code task1Base r.eip = some (.mov .ebp .esp, 0x404003) := by
      rw [heip]; rfl
    exact own_of_fetch hfetch (by simp) hsegs rfl privateStores_nil
      fun _ hsegs' => .locals rfl hsegs' hesp
  | locals heip hsegs hebp =>
    have hfetch : fetch task1Code task1Base r.eip = some (.sub 16 .esp, 0x404006) := by
      rw [heip]; rfl
    exact own_of_fetch hfetch (by simp) hsegs rfl privateStores_nil
      fun _ hsegs' => .counter rfl hsegs' hebp
  | counter heip hsegs hebp =>
    have hfetch : fetch task1Code task1Base r.eip
        = some (.movl 0x800000 .ebp (-4), 0x40400d) := by
      rw [heip]; rfl
    have hvar : r.ebp + -4 = 0x403ff4 := by rw [hebp]; rfl
    refine own_of_fetch hfetch (by simp) hsegs rfl ?_
      fun _ hsegs' => .clearPtr rfl hsegs' ⟨hebp, ?_⟩
    · simp only [Regs.get, hvar]
      exact privateWord_task1Local.privateStores
    · simp only [Regs.get, hvar]
      exact read32_ownAfter privateWord_task1Local
  | clearPtr heip hsegs h =>
    have hfetch : fetch task1Code task1Base r.eip = some (.load .ebp (-4) .eax, 0x404010) := by
      rw [heip]; rfl
    exact own_of_fetch hfetch (by simp) hsegs (h.load _) privateStores_nil
      fun _ hsegs' => .clear rfl hsegs' (h.keep rfl) rfl
  | loop heip hsegs h =>
    have hfetch : fetch task1Code task1Base r.eip = some (.jmp 0x404016, 0x404025) := by
      rw [heip]; rfl
    exact own_of_fetch hfetch (by simp) hsegs rfl privateStores_nil
      fun _ hsegs' => .loadPtr rfl hsegs' (h.keep rfl)
  | loadPtr heip hsegs h =>
    have hfetch : fetch task1Code task1Base r.eip = some (.load .ebp (-4) .eax, 0x404019) := by
      rw [heip]; rfl
    exact own_of_fetch hfetch (by simp) hsegs (h.load _) privateStores_nil
      fun _ hsegs' => .load rfl hsegs' (h.keep rfl) rfl
  | add heip hsegs h heax =>
    have hfetch : fetch task1Code task1Base r.eip = some (.lea .eax 1 .edx, 0x40401e) := by
      rw [heip]; rfl
    exact own_of_fetch hfetch (by simp) hsegs rfl privateStores_nil
      fun _ hsegs' => .storePtr rfl hsegs' (h.keep rfl) (congrArg (· + 1) heax)
  | storePtr heip hsegs h hedx =>
    have hfetch : fetch task1Code task1Base r.eip = some (.load .ebp (-4) .eax, 0x404021) := by
      rw [heip]; rfl
    exact own_of_fetch hfetch (by simp) hsegs (h.load _) privateStores_nil
      fun _ hsegs' => .store rfl hsegs' (h.keep rfl) rfl hedx

theorem task1At_access {p : Point} {r : Regs} {own : Mem} (shared : Mem)
    (h : Task1At p 0 r own) :
    Performs 0 p r (runCode task1Code task1Base r (viewOf 0 (joined own shared))) ∧
    ∃ n, Task1At (p.next (shared.read32 counterPa)) n
      (behaviour 0 (runCode task1Code task1Base) (r, own, shared)).1
      (behaviour 0 (runCode task1Code task1Base) (r, own, shared)).2.1 := by
  have hzero : counterOf 0 + 0 = counterOf 0 := BitVec.add_zero _
  cases h with
  | clear heip hsegs h heax =>
    have hfetch : fetch task1Code task1Base r.eip = some (.movl 0 .eax 0, 0x404016) := by
      rw [heip]; rfl
    have hexec : execUser (viewOf 0 (joined own shared)) { r with eip := 0x404016 } (.movl 0 .eax 0)
        = ({ r with eip := 0x404016 }, wordStores (counterOf 0) 0) := by
      simp only [execUser, Regs.get, heax, hzero]
    exact access_of_fetch hfetch (by simp) hsegs hexec (by simp) rfl
      fun _ hsegs' => .loadPtr rfl hsegs' (h.access rfl)
  | load heip hsegs h heax =>
    have hfetch : fetch task1Code task1Base r.eip = some (.load .eax 0 .eax, 0x40401b) := by
      rw [heip]; rfl
    have hexec : execUser (viewOf 0 (joined own shared)) { r with eip := 0x40401b }
        (.load .eax 0 .eax)
          = ({ r with eip := 0x40401b, eax := shared.read32 counterPa }, []) := by
      simp only [execUser, Regs.get, Regs.set, heax, hzero, readWord_counter]
    exact access_of_fetch hfetch (by simp) hsegs hexec (by simp) rfl
      fun _ hsegs' => .add rfl hsegs' (h.keep rfl) rfl
  | @store r own v heip hsegs h heax hedx =>
    have hfetch : fetch task1Code task1Base r.eip = some (.store .edx .eax 0, 0x404023) := by
      rw [heip]; rfl
    have hexec : execUser (viewOf 0 (joined own shared)) { r with eip := 0x404023 }
        (.store .edx .eax 0)
          = ({ r with eip := 0x404023 }, wordStores (counterOf 0) (v + 1)) := by
      simp only [execUser, Regs.get, heax, hedx, hzero]
    exact access_of_fetch hfetch (by simp) hsegs hexec (by simp) rfl
      fun _ hsegs' => .loop rfl hsegs' (h.access rfl)

/-! ## `task2_function` -/

/-- `sys_counter` comes first. -/
def task2Base : Word := 0x804000

def task2Code : List (Word × UserInstr) :=
  [(1, .push .ebp), (2, .mov .ebp .esp), (3, .load .ebp 8 .edx), (2, .mov .eax .edx),
    (2, .int 0x80), (1, .nop), (1, .pop .ebp), (1, .ret),
    -- task2_function
    (1, .push .ebp), (2, .mov .ebp .esp), (3, .sub 16 .esp), (7, .movl 0x400000 .ebp (-4)),
    -- while (1)
    (3, .pushMem .ebp (-4)), (5, .call 0x804000), (3, .add 4 .esp), (2, .jmp 0x80401a)]

/-- A word on the stack of task 2, and the same word after an instruction. -/
theorem keep_word {own shared : Mem} {a v : Word} (h : own.read32 a = v) (ha : PrivateWord 1 a) :
    (ownAfter 1 own shared []).read32 a = v := (read32_ownAfter_nil ha).trans h

theorem keep_word_push {own shared : Mem} {a b v w : Word} (h : own.read32 a = v)
    (ha : PrivateWord 1 a) (hb : PrivateWord 1 b)
    (hab : 4 ≤ (b - a).toNat ∧ 4 ≤ (a - b).toNat) :
    (ownAfter 1 own shared (wordStores b w)).read32 a = v :=
  (read32_ownAfter_of_disjoint hb ha hab).trans h

/-- The frame of `task2_function` with its variable; `sp` is where the stack has got to. -/
structure Task2Frame (sp : Word) (r : Regs) (own : Mem) : Prop where
  esp : r.esp = sp
  ebp : r.ebp = 0x803ff8
  counter : own.read32 0x803ff4 = counterOf 1

/-- `sys_counter` has been called from it: its argument and its return address. -/
structure CallFrame (own : Mem) : Prop where
  counter : own.read32 0x803ff4 = counterOf 1
  arg : own.read32 0x803fe4 = counterOf 1
  ret : own.read32 0x803fe0 = 0x804022

/-- And it has saved the frame pointer of its caller. -/
structure SysFrame (r : Regs) (own : Mem) : Prop extends CallFrame own where
  esp : r.esp = 0x803fdc
  saved : own.read32 0x803fdc = 0x803ff8

theorem SysFrame.keep {r r' : Regs} {own shared : Mem} (h : SysFrame r own)
    (hesp : r'.esp = r.esp) :
    SysFrame r' (ownAfter 1 own shared []) where
  counter := keep_word h.counter (by decide)
  arg := keep_word h.arg (by decide)
  ret := keep_word h.ret (by decide)
  esp := hesp.trans h.esp
  saved := keep_word h.saved (by decide)

/-- Where the code of task 2 is before each of its instructions. -/
inductive Task2At : Point → Nat → Regs → Mem → Prop
  | push {r own} (heip : r.eip = 0x80400d) (hsegs : UserSegs r) (hesp : r.esp = 0x803ffc) :
      Task2At .print 10 r own
  | frame {r own} (heip : r.eip = 0x80400e) (hsegs : UserSegs r) (hesp : r.esp = 0x803ff8) :
      Task2At .print 9 r own
  | locals {r own} (heip : r.eip = 0x804010) (hsegs : UserSegs r) (hesp : r.esp = 0x803ff8)
      (hebp : r.ebp = 0x803ff8) : Task2At .print 8 r own
  | counter {r own} (heip : r.eip = 0x804013) (hsegs : UserSegs r) (hesp : r.esp = 0x803fe8)
      (hebp : r.ebp = 0x803ff8) : Task2At .print 7 r own
  | arg {r own} (heip : r.eip = 0x80401a) (hsegs : UserSegs r) (h : Task2Frame 0x803fe8 r own) :
      Task2At .print 6 r own
  | call {r own} (heip : r.eip = 0x80401d) (hsegs : UserSegs r) (h : Task2Frame 0x803fe4 r own)
      (harg : own.read32 0x803fe4 = counterOf 1) : Task2At .print 5 r own
  | sysPush {r own} (heip : r.eip = 0x804000) (hsegs : UserSegs r) (hesp : r.esp = 0x803fe0)
      (hebp : r.ebp = 0x803ff8) (h : CallFrame own) : Task2At .print 4 r own
  | sysFrame {r own} (heip : r.eip = 0x804001) (hsegs : UserSegs r) (h : SysFrame r own) :
      Task2At .print 3 r own
  | loadArg {r own} (heip : r.eip = 0x804003) (hsegs : UserSegs r) (h : SysFrame r own)
      (hebp : r.ebp = 0x803fdc) : Task2At .print 2 r own
  | movArg {r own} (heip : r.eip = 0x804006) (hsegs : UserSegs r) (h : SysFrame r own)
      (hedx : r.edx = counterOf 1) : Task2At .print 1 r own
  | int {r own} (heip : r.eip = 0x804008) (hsegs : UserSegs r) (h : SysFrame r own)
      (heax : r.eax = counterOf 1) : Task2At .print 0 r own
  | nop {r own} (heip : r.eip = 0x80400a) (hsegs : UserSegs r) (h : SysFrame r own) :
      Task2At .print 11 r own
  | pop {r own} (heip : r.eip = 0x80400b) (hsegs : UserSegs r) (h : SysFrame r own) :
      Task2At .print 10 r own
  | ret {r own} (heip : r.eip = 0x80400c) (hsegs : UserSegs r) (h : Task2Frame 0x803fe0 r own)
      (hret : own.read32 0x803fe0 = 0x804022) : Task2At .print 9 r own
  | dropArg {r own} (heip : r.eip = 0x804022) (hsegs : UserSegs r)
      (h : Task2Frame 0x803fe4 r own) : Task2At .print 8 r own
  | loop {r own} (heip : r.eip = 0x804025) (hsegs : UserSegs r) (h : Task2Frame 0x803fe8 r own) :
      Task2At .print 7 r own

theorem task2At_own {p : Point} {n : Nat} {r : Regs} {own : Mem} (shared : Mem)
    (h : Task2At p (n + 1) r own) :
    (∃ u, runCode task2Code task2Base r (viewOf 1 (joined own shared)) = .instr u ∧ FlatSegs u ∧
      PrivateStores 1 u.stores) ∧
    Task2At p n (behaviour 1 (runCode task2Code task2Base) (r, own, shared)).1
      (behaviour 1 (runCode task2Code task2Base) (r, own, shared)).2.1 := by
  cases h with
  | push heip hsegs hesp =>
    have hfetch : fetch task2Code task2Base r.eip = some (.push .ebp, 0x80400e) := by rw [heip]; rfl
    have hword : PrivateWord 1 0x803ff8 := by decide
    have htop : r.esp - 4 = 0x803ff8 := by rw [hesp]; rfl
    refine own_of_fetch hfetch (by simp) hsegs rfl ?_ fun _ hsegs' => .frame rfl hsegs' htop
    simp only [htop]
    exact hword.privateStores
  | frame heip hsegs hesp =>
    have hfetch : fetch task2Code task2Base r.eip = some (.mov .ebp .esp, 0x804010) := by
      rw [heip]; rfl
    exact own_of_fetch hfetch (by simp) hsegs rfl privateStores_nil
      fun _ hsegs' => .locals rfl hsegs' hesp hesp
  | locals heip hsegs hesp hebp =>
    have hfetch : fetch task2Code task2Base r.eip = some (.sub 16 .esp, 0x804013) := by
      rw [heip]; rfl
    have htop : r.esp - 16 = 0x803fe8 := by rw [hesp]; rfl
    exact own_of_fetch hfetch (by simp) hsegs rfl privateStores_nil
      fun _ hsegs' => .counter rfl hsegs' htop hebp
  | counter heip hsegs hesp hebp =>
    have hfetch : fetch task2Code task2Base r.eip
        = some (.movl 0x400000 .ebp (-4), 0x80401a) := by
      rw [heip]; rfl
    have hword : PrivateWord 1 0x803ff4 := by decide
    have hvar : r.ebp + -4 = 0x803ff4 := by rw [hebp]; rfl
    refine own_of_fetch hfetch (by simp) hsegs rfl ?_
      fun _ hsegs' => .arg rfl hsegs' ⟨hesp, hebp, ?_⟩
    · simp only [Regs.get, hvar]
      exact hword.privateStores
    · simp only [Regs.get, hvar]
      exact read32_ownAfter hword
  | arg heip hsegs h =>
    have hfetch : fetch task2Code task2Base r.eip = some (.pushMem .ebp (-4), 0x80401d) := by
      rw [heip]; rfl
    have hlocal : PrivateWord 1 0x803ff4 := by decide
    have hword : PrivateWord 1 0x803fe4 := by decide
    have hexec : execUser (viewOf 1 (joined own shared)) { r with eip := 0x80401d }
        (.pushMem .ebp (-4))
          = ({ r with eip := 0x80401d, esp := 0x803fe4 }, wordStores 0x803fe4 (counterOf 1)) := by
      have hvar : r.ebp + -4 = 0x803ff4 := by rw [h.ebp]; rfl
      have htop : r.esp - 4 = 0x803fe4 := by rw [h.esp]; rfl
      simp only [execUser, Regs.get, hvar, htop, readWord_private hlocal, h.counter]
    exact own_of_fetch hfetch (by simp) hsegs hexec hword.privateStores
      fun _ hsegs' => .call rfl hsegs'
        ⟨rfl, h.ebp, keep_word_push h.counter hlocal hword (by decide)⟩ (read32_ownAfter hword)
  | call heip hsegs h harg =>
    have hfetch : fetch task2Code task2Base r.eip = some (.call 0x804000, 0x804022) := by
      rw [heip]; rfl
    have hword : PrivateWord 1 0x803fe0 := by decide
    have hexec : execUser (viewOf 1 (joined own shared)) { r with eip := 0x804022 }
        (.call 0x804000)
          = ({ r with eip := 0x804000, esp := 0x803fe0 }, wordStores 0x803fe0 0x804022) := by
      have htop : r.esp - 4 = 0x803fe0 := by rw [h.esp]; rfl
      simp only [execUser, htop]
    exact own_of_fetch hfetch (by simp) hsegs hexec hword.privateStores
      fun _ hsegs' => .sysPush rfl hsegs' rfl h.ebp
        ⟨keep_word_push h.counter (by decide) hword (by decide),
          keep_word_push harg (by decide) hword (by decide), read32_ownAfter hword⟩
  | sysPush heip hsegs hesp hebp h =>
    have hfetch : fetch task2Code task2Base r.eip = some (.push .ebp, 0x804001) := by rw [heip]; rfl
    have hword : PrivateWord 1 0x803fdc := by decide
    have hexec : execUser (viewOf 1 (joined own shared)) { r with eip := 0x804001 } (.push .ebp)
        = ({ r with eip := 0x804001, esp := 0x803fdc }, wordStores 0x803fdc 0x803ff8) := by
      have htop : r.esp - 4 = 0x803fdc := by rw [hesp]; rfl
      simp only [execUser, Regs.get, htop, hebp]
    exact own_of_fetch hfetch (by simp) hsegs hexec hword.privateStores
      fun _ hsegs' => .sysFrame rfl hsegs'
        ⟨⟨keep_word_push h.counter (by decide) hword (by decide),
          keep_word_push h.arg (by decide) hword (by decide),
          keep_word_push h.ret (by decide) hword (by decide)⟩, rfl, read32_ownAfter hword⟩
  | sysFrame heip hsegs h =>
    have hfetch : fetch task2Code task2Base r.eip = some (.mov .ebp .esp, 0x804003) := by
      rw [heip]; rfl
    exact own_of_fetch hfetch (by simp) hsegs rfl privateStores_nil
      fun _ hsegs' => .loadArg rfl hsegs' (h.keep rfl) h.esp
  | loadArg heip hsegs h hebp =>
    have hfetch : fetch task2Code task2Base r.eip = some (.load .ebp 8 .edx, 0x804006) := by
      rw [heip]; rfl
    have hword : PrivateWord 1 0x803fe4 := by decide
    have hexec : execUser (viewOf 1 (joined own shared)) { r with eip := 0x804006 }
        (.load .ebp 8 .edx) = ({ r with eip := 0x804006, edx := counterOf 1 }, []) := by
      have harg : r.ebp + 8 = 0x803fe4 := by rw [hebp]; rfl
      simp only [execUser, Regs.get, Regs.set, harg, readWord_private hword, h.arg]
    exact own_of_fetch hfetch (by simp) hsegs hexec privateStores_nil
      fun _ hsegs' => .movArg rfl hsegs' (h.keep rfl) rfl
  | movArg heip hsegs h hedx =>
    have hfetch : fetch task2Code task2Base r.eip = some (.mov .eax .edx, 0x804008) := by
      rw [heip]; rfl
    exact own_of_fetch hfetch (by simp) hsegs rfl privateStores_nil
      fun _ hsegs' => .int rfl hsegs' (h.keep rfl) hedx
  | nop heip hsegs h =>
    have hfetch : fetch task2Code task2Base r.eip = some (.nop, 0x80400b) := by rw [heip]; rfl
    exact own_of_fetch hfetch (by simp) hsegs rfl privateStores_nil
      fun _ hsegs' => .pop rfl hsegs' (h.keep rfl)
  | pop heip hsegs h =>
    have hfetch : fetch task2Code task2Base r.eip = some (.pop .ebp, 0x80400c) := by rw [heip]; rfl
    have hword : PrivateWord 1 0x803fdc := by decide
    have hexec : execUser (viewOf 1 (joined own shared)) { r with eip := 0x80400c } (.pop .ebp)
        = ({ r with eip := 0x80400c, esp := 0x803fe0, ebp := 0x803ff8 }, []) := by
      have htop : (0x803fdc : Word) + 4 = 0x803fe0 := rfl
      simp only [execUser, Regs.set, h.esp, readWord_private hword, h.saved, htop]
    exact own_of_fetch hfetch (by simp) hsegs hexec privateStores_nil
      fun _ hsegs' => .ret rfl hsegs' ⟨rfl, rfl, keep_word h.counter (by decide)⟩
        (keep_word h.ret (by decide))
  | ret heip hsegs h hret =>
    have hfetch : fetch task2Code task2Base r.eip = some (.ret, 0x80400d) := by rw [heip]; rfl
    have hword : PrivateWord 1 0x803fe0 := by decide
    have hexec : execUser (viewOf 1 (joined own shared)) { r with eip := 0x80400d } .ret
        = ({ r with eip := 0x804022, esp := 0x803fe4 }, []) := by
      have htop : (0x803fe0 : Word) + 4 = 0x803fe4 := rfl
      simp only [execUser, h.esp, readWord_private hword, hret, htop]
    exact own_of_fetch hfetch (by simp) hsegs hexec privateStores_nil
      fun _ hsegs' => .dropArg rfl hsegs' ⟨rfl, h.ebp, keep_word h.counter (by decide)⟩
  | dropArg heip hsegs h =>
    have hfetch : fetch task2Code task2Base r.eip = some (.add 4 .esp, 0x804025) := by
      rw [heip]; rfl
    have htop : r.esp + 4 = 0x803fe8 := by rw [h.esp]; rfl
    exact own_of_fetch hfetch (by simp) hsegs rfl privateStores_nil
      fun _ hsegs' => .loop rfl hsegs' ⟨htop, h.ebp, keep_word h.counter (by decide)⟩
  | loop heip hsegs h =>
    have hfetch : fetch task2Code task2Base r.eip = some (.jmp 0x80401a, 0x804027) := by
      rw [heip]; rfl
    exact own_of_fetch hfetch (by simp) hsegs rfl privateStores_nil
      fun _ hsegs' => .arg rfl hsegs' ⟨h.esp, h.ebp, keep_word h.counter (by decide)⟩

theorem task2At_access {p : Point} {r : Regs} {own : Mem} (shared : Mem)
    (h : Task2At p 0 r own) :
    Performs 1 p r (runCode task2Code task2Base r (viewOf 1 (joined own shared))) ∧
    ∃ n, Task2At (p.next (shared.read32 counterPa)) n
      (behaviour 1 (runCode task2Code task2Base) (r, own, shared)).1
      (behaviour 1 (runCode task2Code task2Base) (r, own, shared)).2.1 := by
  cases h with
  | int heip hsegs h heax =>
    have hfetch : fetch task2Code task2Base r.eip = some (.int 0x80, 0x80400a) := by rw [heip]; rfl
    have hint : runCode task2Code task2Base r (viewOf 1 (joined own shared)) = .int 0x80 := by
      simp only [runCode, hfetch]
    have hbehaviour : behaviour 1 (runCode task2Code task2Base) (r, own, shared)
        = ({ r with eip := r.eip + 2 }, own, shared) := by
      simp only [behaviour, hint]
    rw [hint, hbehaviour]
    exact ⟨⟨rfl, rfl, heax⟩, 11, .nop (congrArg (· + 2) heip) ⟨hsegs.cs, hsegs.ss⟩ { h with }⟩

/-! ## Both -/

def sampleProgram : Fin 2 → Program
  | 0 => runCode task1Code task1Base
  | 1 => runCode task2Code task2Base

/-- The store of zero is the sixth instruction, and the first `int $0x80` the eleventh. -/
def sampleLead : Fin 2 → Nat
  | 0 => 5
  | 1 => 10

def SampleAt : Fin 2 → Point → Nat → Regs → Mem → Prop
  | 0 => Task1At
  | 1 => Task2At

section Both

variable {p : Point} {n : Nat} {r : Regs} {own : Mem}

theorem sampleAt_start (i : Fin 2) (h : StartsAs (examTasks sampleImage i) r) :
    SampleAt i (taskFunction i) (sampleLead i) r own :=
  match i with
  | 0 => .push h.eip ⟨h.cs, h.ss⟩ h.esp
  | 1 => .push h.eip ⟨h.cs, h.ss⟩ h.esp

theorem sampleAt_own (i : Fin 2) (shared : Mem) (h : SampleAt i p (n + 1) r own) :
    (∃ u, sampleProgram i r (viewOf i (joined own shared)) = .instr u ∧ FlatSegs u ∧
      PrivateStores i u.stores) ∧
    SampleAt i p n (behaviour i (sampleProgram i) (r, own, shared)).1
      (behaviour i (sampleProgram i) (r, own, shared)).2.1 :=
  match i with
  | 0 => task1At_own shared h
  | 1 => task2At_own shared h

theorem sampleAt_access (i : Fin 2) (shared : Mem) (h : SampleAt i p 0 r own) :
    Performs i p r (sampleProgram i r (viewOf i (joined own shared))) ∧
    ∃ n, SampleAt i (p.next (shared.read32 counterPa)) n
      (behaviour i (sampleProgram i) (r, own, shared)).1
      (behaviour i (sampleProgram i) (r, own, shared)).2.1 :=
  match i with
  | 0 => task1At_access shared h
  | 1 => task2At_access shared h

end Both

/-- The task functions in the sample image. -/
def sampleCode (i : Fin 2) : Code sampleImage i where
  program := sampleProgram i
  lead := sampleLead i
  At := SampleAt i
  start := sampleAt_start i
  own := sampleAt_own i
  access := sampleAt_access i

end Machine

end SecOS
