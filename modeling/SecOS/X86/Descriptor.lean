-- SUMMARY: Segment selectors, segment and gate descriptors as the processor decodes them, and the I/O permission check.
import SecOS.X86.Bitfield

/-!
# Descriptors

How the processor reads a 64-bit descriptor, when it lets a selector be loaded,
and the I/O permission bitmap of a task state segment.
-/

namespace X86

abbrev Sel := BitVec 16
abbrev Desc := BitVec 64

namespace Sel

def rpl (s : Sel) : BitVec 2 := field s 0 2
def ti (s : Sel) : Bool := s.getLsbD 2
def index (s : Sel) : BitVec 13 := field s 3 13

/-- Index 0 of the global table, whatever the requested privilege level. -/
def isNull (s : Sel) : Bool := s.index == 0 && !ti s

end Sel

namespace Desc

/-! ## Fields -/

def type (d : Desc) : BitVec 4 := field d 40 4
/-- Set for code and data segments, clear for system descriptors. -/
def isSegment (d : Desc) : Bool := d.getLsbD 44
def dpl (d : Desc) : BitVec 2 := field d 45 2
def present (d : Desc) : Bool := d.getLsbD 47

def base (d : Desc) : BitVec 32 := field d 56 8 ++ (field d 32 8 ++ field d 16 16)
def granular (d : Desc) : Bool := d.getLsbD 55

/-- Offset of the last valid byte, scaled to pages when the granularity bit is set. -/
def limit (d : Desc) : BitVec 32 :=
  let raw : BitVec 20 := field d 48 4 ++ field d 0 16
  if d.granular then raw ++ 0xfff#12 else raw.setWidth 32

def gateOffset (d : Desc) : BitVec 32 := field d 48 16 ++ field d 0 16
def gateSelector (d : Desc) : Sel := field d 16 16

def isCode (d : Desc) : Bool := d.isSegment && (type d).getLsbD 3
def isData (d : Desc) : Bool := d.isSegment && !(type d).getLsbD 3
def conforming (d : Desc) : Bool := (type d).getLsbD 2
def readable (d : Desc) : Bool := isData d || (isCode d && (type d).getLsbD 1)
def writable (d : Desc) : Bool := isData d && (type d).getLsbD 1

end Desc

/-! ## Loading selectors -/

/-- The global descriptor table; there is no local one. -/
abbrev Gdt := List Desc

namespace Gdt

def lookup (gdt : Gdt) (s : Sel) : Option Desc :=
  if Sel.isNull s || Sel.ti s then none else gdt[(Sel.index s).toNat]?

/-- `s` may become CS at privilege level `pl`: a present, non-conforming code
segment of that level. -/
def codeOk (gdt : Gdt) (pl : BitVec 2) (s : Sel) : Bool :=
  match gdt.lookup s with
  | some d => d.present && d.isCode && !d.conforming && d.dpl == pl && Sel.rpl s == pl
  | none => false

/-- `s` may become SS at privilege level `pl`. -/
def stackOk (gdt : Gdt) (pl : BitVec 2) (s : Sel) : Bool :=
  match gdt.lookup s with
  | some d => d.present && d.writable && d.dpl == pl && Sel.rpl s == pl
  | none => false

/-- `s` may be loaded into a data segment register at privilege level `pl`. A
null selector may always be loaded; using it is what faults. -/
def dataOk (gdt : Gdt) (pl : BitVec 2) (s : Sel) : Bool :=
  Sel.isNull s ||
  match gdt.lookup s with
  | some d => d.present && d.readable &&
      ((d.isCode && d.conforming) || (pl.ule d.dpl && (Sel.rpl s).ule d.dpl))
  | none => false

/-- Reads and writes through `s` do not fault. -/
def dataUsable (gdt : Gdt) (s : Sel) : Bool :=
  match gdt.lookup s with
  | some d => d.present && d.writable
  | none => false

/-- A return to an outer level clears a data segment register that the outer
level could not have loaded. -/
def outerData (gdt : Gdt) (pl : BitVec 2) (s : Sel) : Sel :=
  match gdt.lookup s with
  | some d => if d.dpl.ult pl && !(d.isCode && d.conforming) then 0 else s
  | none => s

end Gdt

/-! ## I/O permission -/

/-- The I/O permission check for `width` consecutive ports, made when the current
level is above IOPL: the bitmap starts `base` bytes into the task state segment,
whose bytes are `tss` and whose last valid offset is `limit`. -/
def ioAllowed (tss : Nat → BitVec 8) (limit base port width : Nat) : Prop :=
  ∀ k < width, base + (port + k) / 8 ≤ limit ∧
    (tss (base + (port + k) / 8)).getLsbD ((port + k) % 8) = false

instance (tss : Nat → BitVec 8) (limit base port width : Nat) :
    Decidable (ioAllowed tss limit base port width) :=
  inferInstanceAs (Decidable (∀ k < width, _))

end X86
