-- SUMMARY: The registers of the serial line with the banks that the line control register selects, and where the writes of `uart_init` land.
import SecOS.Kernel.Uart
import SecOS.X86.Bitfield

/-!
# Initialisation of the serial line

Several registers share a port. Which of them a write reaches depends on what the line
control register holds then: `0xbf` selects the enhanced registers, and its bit 7 the
divisor latch. The macros of `uart.h` name a register and give its port; whether the
register is there is up to the driver.
-/

namespace SecOS

open X86

/-! ## Registers -/

inductive SerialReg where
  | tx | ier | fcr | lcr | mcr | lsr | msr | scr
  /-- With `LCR.dla` set. -/
  | dlaLsb | dlaMsb
  /-- With 0xbf in `LCR`. -/
  | efr | xon1 | xon2 | xoff1 | xoff2
  deriving DecidableEq

def SerialReg.offset : SerialReg → Nat
  | tx | dlaLsb => 0
  | ier | dlaMsb => 1
  | fcr | efr => 2
  | lcr => 3
  | mcr | xon1 => 4
  | lsr | xon2 => 5
  | msr | xoff1 => 6
  | scr | xoff2 => 7

/-- `SERIAL_TX(BASE)` and so on. -/
def SerialReg.port (base : BitVec 16) (r : SerialReg) : BitVec 16 := base + BitVec.ofNat 16 r.offset

/-- Writes to the status registers go nowhere. -/
def SerialReg.readOnly : SerialReg → Bool
  | lsr | msr => true
  | _ => false

/-- The device: what was last written to each register. -/
abbrev Serial := SerialReg → Byte

namespace Serial

def dla (u : Serial) : Bool := (u .lcr).getLsbD 7

def enhanced (u : Serial) : Bool := u .lcr == 0xbf

/-- The register that stands at an offset. -/
def selected (u : Serial) (offset : Nat) : Option SerialReg :=
  match offset with
  | 0 => some (if u.dla then .dlaLsb else .tx)
  | 1 => some (if u.dla then .dlaMsb else .ier)
  | 2 => some (if u.enhanced then .efr else .fcr)
  | 3 => some .lcr
  | 4 => some (if u.enhanced then .xon1 else .mcr)
  | 5 => some (if u.enhanced then .xon2 else .lsr)
  | 6 => some (if u.enhanced then .xoff1 else .msr)
  | 7 => some (if u.enhanced then .xoff2 else .scr)
  | _ => none

def outb (base : BitVec 16) (u : Serial) (port : BitVec 16) (value : Byte) : Serial :=
  match u.selected (port - base).toNat with
  | some r => if r.readOnly then u else Function.update u r value
  | none => u

/-- Reading changes none of what has been written. -/
def step (base : BitVec 16) (u : Serial) : IoEvent → Serial
  | .inb _ _ => u
  | .outb port value => u.outb base port value

def run (base : BitVec 16) (u : Serial) (trace : List IoEvent) : Serial := trace.foldl (step base) u

end Serial

/-! ## The driver -/

/-- An `out`: the register that its macro names, and the value. -/
structure SerialOut where
  reg : SerialReg
  value : Byte
  deriving DecidableEq

def SerialOut.event (base : BitVec 16) (o : SerialOut) : IoEvent := .outb (o.reg.port base) o.value

def uartEnableDlaRegisters : SerialOut := ⟨.lcr, 0x80⟩
def uartSetLsbDlaRate (x : Byte) : SerialOut := ⟨.dlaLsb, x⟩
def uartSetMsbDlaRate (x : Byte) : SerialOut := ⟨.dlaMsb, x⟩
def uartEnableEfrRegisters : SerialOut := ⟨.lcr, 0xbf⟩

/-- `__uart_fifo_init`. Of `fcr` two bits are set; `garbage` is what the others have been
left at. -/
def uartFifoInit (garbage : Byte) : List SerialOut :=
  let efr : Byte := setField 0 4 1#1
  let fcr : Byte := setField (setField garbage 0 0#1) 3 0#1
  let efr' : Byte := setField (setField 0 6 1#1) 7 1#1
  [uartEnableEfrRegisters, ⟨.efr, efr⟩, ⟨.fcr, fcr⟩, ⟨.lcr, 0⟩, ⟨.efr, efr'⟩]

/-- The writes of `__uart_common_init`: 115200 baud, 8 bits, no interrupts. -/
def uartCommonInit : List SerialOut :=
  let lcr : Byte := setField 0 0 3#2
  [uartEnableDlaRegisters, uartSetLsbDlaRate 0x01, uartSetMsbDlaRate 0x00, ⟨.lcr, lcr⟩, ⟨.ier, 0⟩]

def serialLsrDataReady : Byte := 0x01

/-- `__uart_can_recv`, of the value read. -/
def uartCanRecv (status : Byte) : Bool := status &&& serialLsrDataReady != 0

/-- `__uart_flush_recv` after at most `k` times through the loop. The device gives the
values of the status register and the characters, one after another. -/
def uartFlushRecv (port : BitVec 16) (lsr rx : Nat → Byte) : Nat → Nat → List IoEvent
  | 0, _ => []
  | k + 1, i =>
    .inb (serialLsr port) (lsr i) ::
      if uartCanRecv (lsr i) then .inb (serialTx port) (rx i) :: uartFlushRecv port lsr rx k (i + 1)
      else []

def uartInitOuts (garbage : Byte) : List SerialOut := uartFifoInit garbage ++ uartCommonInit

/-- What `uart_init` does on the ports. -/
def uartInit (garbage : Byte) (lsr rx : Nat → Byte) (k : Nat) : List IoEvent :=
  (uartInitOuts garbage).map (SerialOut.event serialCom1) ++ uartFlushRecv serialCom1 lsr rx k 0

/-! ## Where the writes land -/

/-- The registers that are reached, one for each write. -/
def Serial.reached (base : BitVec 16) : Serial → List SerialOut → List (Option SerialReg)
  | _, [] => []
  | u, o :: os =>
    u.selected (o.reg.port base - base).toNat ::
      Serial.reached base (u.outb base (o.reg.port base) o.value) os

/-- Every write lands in the register it names. -/
def Serial.Lands (base : BitVec 16) (u : Serial) (os : List SerialOut) : Prop :=
  u.reached base os = os.map fun o => some o.reg

/-- The device as `uart_init` is to leave it. -/
structure Serial.Initialised (u : Serial) : Prop where
  divisor : u .dlaMsb ++ u .dlaLsb = 1#16
  lcr : u .lcr = 3
  ier : u .ier = 0
  /-- `a_rts` and `a_cts` -/
  efr : (u .efr).getLsbD 6 = true ∧ (u .efr).getLsbD 7 = true
  /-- `enable` and `dma` -/
  fcr : (u .fcr).getLsbD 0 = false ∧ (u .fcr).getLsbD 3 = false

/-- The writes `os` reach the registers `rs`, in this order, and leave `u'`. -/
inductive Serial.Path : Serial → List SerialOut → List SerialReg → Serial → Prop where
  | nil {u : Serial} : Path u [] [] u
  | cons {u u' : Serial} {o : SerialOut} {os : List SerialOut} {s : SerialReg}
      {rs : List SerialReg} (hsel : u.selected o.reg.offset = some s) (hs : s.readOnly = false)
      (h : Path (Function.update u s o.value) os rs u') : Path u (o :: os) (s :: rs) u'

variable {base : BitVec 16} {u u' : Serial} {garbage : Byte} {lsr rx : Nat → Byte} {k i : Nat}
variable {os : List SerialOut} {rs : List SerialReg}

theorem SerialReg.port_sub (base : BitVec 16) (r : SerialReg) :
    (r.port base - base).toNat = r.offset := by
  have hoffset : r.offset < 2 ^ 16 := by cases r <;> decide
  unfold SerialReg.port
  bv_omega

namespace Serial

/-- A write through a macro changes the register that is selected at its offset. -/
theorem outb_port {r s : SerialReg} (hsel : u.selected r.offset = some s)
    (hs : s.readOnly = false) (value : Byte) :
    u.outb base (r.port base) value = Function.update u s value := by
  unfold outb
  rw [SerialReg.port_sub, hsel]
  simp only [hs, Bool.false_eq_true, if_false]

theorem Path.reached (h : Path u os rs u') : u.reached base os = rs.map some := by
  induction h with
  | nil => rfl
  | cons hsel hs _ ih => rw [Serial.reached, SerialReg.port_sub, outb_port hsel hs, hsel, ih,
      List.map_cons]

theorem Path.run (h : Path u os rs u') : u.run base (os.map (SerialOut.event base)) = u' := by
  induction h with
  | nil => rfl
  | cons hsel hs _ ih =>
    rw [List.map_cons, Serial.run, List.foldl_cons, SerialOut.event, step, outb_port hsel hs]
    exact ih

/-- Flushing the receiver writes nothing. -/
theorem run_uartFlushRecv (port : BitVec 16) :
    u.run base (uartFlushRecv port lsr rx k i) = u := by
  induction k generalizing i with
  | zero => rfl
  | succ k ih =>
    unfold uartFlushRecv
    split
    · exact ih
    · rfl

theorem run_append (t t' : List IoEvent) : u.run base (t ++ t') = (u.run base t).run base t' :=
  List.foldl_append

theorem selected_of_lcr {v : Byte} (h : u .lcr = v) :
    u.selected 0 = some (if v.getLsbD 7 then .dlaLsb else .tx) ∧
      u.selected 1 = some (if v.getLsbD 7 then .dlaMsb else .ier) := by
  subst h
  exact ⟨rfl, rfl⟩

end Serial

/-! ## The initialisation -/

/-- What the writes of `uart_init` leave. -/
def Serial.afterInit (u : Serial) (garbage : Byte) : Serial
  | .lcr => 3
  | .ier => 0
  | .dlaLsb => 1
  | .dlaMsb => 0
  | .efr => setField (setField garbage 0 0#1) 3 0#1
  | .fcr => 0xc0
  | r => u r

/-- The value meant for FCR goes to EFR, whose bank is still selected, and the last value
of EFR to FCR, when the bank no longer is. -/
theorem path_uartInitOuts (u : Serial) (garbage : Byte) :
    Serial.Path u (uartInitOuts garbage)
      [.lcr, .efr, .efr, .lcr, .fcr, .lcr, .dlaLsb, .dlaMsb, .lcr, .ier] (u.afterInit garbage) := by
  have hlatch : ∀ u : Serial, u .lcr = 0x80 → u.selected 0 = some .dlaLsb ∧
      u.selected 1 = some .dlaMsb := fun u h => Serial.selected_of_lcr h
  have hplain : ∀ u : Serial, u .lcr = 3 → u.selected 1 = some .ier :=
    fun u h => (Serial.selected_of_lcr h).2
  refine .cons rfl rfl (.cons rfl rfl (.cons rfl rfl (.cons rfl rfl (.cons rfl rfl
    (.cons rfl rfl (.cons (hlatch _ rfl).1 rfl (.cons (hlatch _ rfl).2 rfl (.cons rfl rfl
    (.cons (hplain _ rfl) rfl ?_)))))))))
  suffices h : ∀ v : Serial, v = u.afterInit garbage → Serial.Path v [] [] (u.afterInit garbage)
      from h _ (funext fun r => by cases r <;> rfl)
  rintro _ rfl
  exact .nil

theorem run_uartInit (u : Serial) (garbage : Byte) (lsr rx : Nat → Byte) (k : Nat) :
    u.run serialCom1 (uartInit garbage lsr rx k) = u.afterInit garbage := by
  unfold uartInit
  rw [Serial.run_append, (path_uartInitOuts u garbage).run, Serial.run_uartFlushRecv]

theorem not_lands_uartInitOuts (u : Serial) (garbage : Byte) :
    ¬ u.Lands serialCom1 (uartInitOuts garbage) := by
  intro h
  have hthird := (path_uartInitOuts u garbage).reached.symm.trans h
  have hname : (some SerialReg.efr) = some .fcr := congrArg (fun rs => rs.getD 2 none) hthird
  exact absurd hname (by decide)

/-- Automatic RTS and CTS are on when the uninitialised bits happen to be set. -/
theorem initialised_afterInit_iff (u : Serial) (garbage : Byte) :
    (u.afterInit garbage).Initialised ↔
      garbage.getLsbD 6 = true ∧ garbage.getLsbD 7 = true := by
  have hbit : ∀ i, 4 ≤ i → i < 8 →
      (u.afterInit garbage .efr).getLsbD i = garbage.getLsbD i := by
    intro i hlo hhi
    simp only [Serial.afterInit]
    rw [getLsbD_setField_disjoint _ _ (by omega) (by omega),
      getLsbD_setField_disjoint _ _ (by omega) (by omega)]
  constructor
  · intro h
    have hefr := h.efr
    rwa [hbit 6 (by decide) (by decide), hbit 7 (by decide) (by decide)] at hefr
  · intro h
    rw [← hbit 6 (by decide) (by decide), ← hbit 7 (by decide) (by decide)] at h
    have hdivisor : (0 : Byte) ++ (1 : Byte) = 1#16 := by decide
    have hfcr : (0xc0 : Byte).getLsbD 0 = false ∧ (0xc0 : Byte).getLsbD 3 = false := by decide
    exact ⟨hdivisor, rfl, rfl, h, hfcr⟩

/-- `uart_init` is right about the device `u` if each of its writes lands in the register
it names and the device is initialised afterwards. -/
structure Serial.InitOk (u : Serial) (garbage : Byte) (lsr rx : Nat → Byte) (k : Nat) : Prop where
  lands : u.Lands serialCom1 (uartInitOuts garbage)
  initialised : (u.run serialCom1 (uartInit garbage lsr rx k)).Initialised

/-- It never is. Divisor, LCR, IER and FCR come out as they should, and EFR does if the
bits that are not set in the local variable do. -/
theorem uartInit_banks (u : Serial) (garbage : Byte) (lsr rx : Nat → Byte) (k : Nat) :
    ¬ u.InitOk garbage lsr rx k ∧
      u.reached serialCom1 (uartInitOuts garbage)
        = [some .lcr, some .efr, some .efr, some .lcr, some .fcr,
            some .lcr, some .dlaLsb, some .dlaMsb, some .lcr, some .ier] ∧
      u.run serialCom1 (uartInit garbage lsr rx k) = u.afterInit garbage ∧
      ((u.run serialCom1 (uartInit garbage lsr rx k)).Initialised ↔
        garbage.getLsbD 6 = true ∧ garbage.getLsbD 7 = true) := by
  refine ⟨fun h => not_lands_uartInitOuts u garbage h.lands, ?_, ?_, ?_⟩
  · exact (path_uartInitOuts u garbage).reached
  · exact run_uartInit u garbage lsr rx k
  · rw [run_uartInit]
    exact initialised_afterInit_iff u garbage

/-- With zeros everywhere automatic RTS and CTS stay off. -/
theorem not_initOk_zero :
    ¬ Serial.InitOk (fun _ => 0) 0 (fun _ => 0) (fun _ => 0) 1 := by
  intro h
  have hinit := h.initialised
  rw [run_uartInit, initialised_afterInit_iff] at hinit
  exact absurd hinit.1 (by decide)

end SecOS
