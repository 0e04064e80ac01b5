-- SUMMARY: The memory map that the boot loader hands over, the loop that prints it, and the maps on which the loop meets every entry.
import SecOS.Base.Stride
import SecOS.X86.Memory
import SecOS.X86.Bitfield

/-!
# Memory map

The entries of a Multiboot memory map are as long as their first field says. The loop of
`tp` goes from one to the next with `entry++` and never looks at that field.
-/

namespace SecOS

open X86

namespace Tp0

/-! ## Entries -/

/-- `multiboot_mmap_entry` -/
structure MmapEntry where
  size : Word
  addr : BitVec 64
  len : BitVec 64
  type : Word
  deriving DecidableEq

def sizeofMmapEntry : Word := 24

def multibootMemoryAvailable : Word := 1
def multibootMemoryReserved : Word := 2
def multibootMemoryAcpiReclaimable : Word := 3
def multibootMemoryNvs : Word := 4

/-- The fields at `entry`; the structure is packed. -/
def mmapEntryAt (mem : Mem) (entry : Word) : MmapEntry where
  size := mem.read32 entry
  addr := mem.read64 (entry + 4)
  len := mem.read64 (entry + 12)
  type := mem.read32 (entry + 20)

/-! ## The loop -/

/-- What is printed about an entry: the arguments of `"[0x%llx - 0x%llx] "`, and the
message that follows. -/
structure Report where
  start : BitVec 64
  stop : BitVec 64
  type : String
  deriving DecidableEq

def memoryType (type : Word) : String :=
  if type = multibootMemoryAvailable then "MULTIBOOT_MEMORY_AVAILABLE\n"
  else if type = multibootMemoryReserved then "MULTIBOOT_MEMORY_RESERVED\n"
  else if type = multibootMemoryAcpiReclaimable then "MULTIBOOT_MEMORY_ACPI_RECLAIMABLE\n"
  else if type = multibootMemoryNvs then "MULTIBOOT_MEMORY_NVS\n"
  else "entry type not known\n"

def MmapEntry.report (e : MmapEntry) : Report where
  start := e.addr
  stop := e.addr + e.len
  type := memoryType e.type

/-- One time through the loop. -/
structure Visit where
  entry : Word
  report : Report
  deriving DecidableEq

def visit (mem : Mem) (entry : Word) : Visit where
  entry
  report := (mmapEntryAt mem entry).report

/-- The loop of `tp` over the memory map. The sum in its condition wraps. -/
def tpMmap (mem : Mem) (mmapAddr mmapLength : Word) (fuel : Nat) : Option (List Visit) :=
  Stride.collect (visit mem) sizeofMmapEntry (mmapAddr + mmapLength) fuel mmapAddr

/-- The bytes read at `entry`: `addr`, `len` and `type`. -/
def entryReads (entry : Word) : List Word :=
  (List.range 20).map fun k => entry + 4 + BitVec.ofNat 32 k

/-! ## Maps -/

/-- `es` lies at `a`: behind the `size` field of an entry come `size` bytes, and then
the next entry. -/
def Laid (mem : Mem) : Word → List MmapEntry → Prop
  | _, [] => True
  | a, e :: es => mmapEntryAt mem a = e ∧ Laid mem (a + e.size + 4) es

/-- The number of bytes that the entries take. -/
def extent (es : List MmapEntry) : Nat := (es.map fun e => e.size.toNat + 4).sum

/-- The map of entries `es`, in the format of Multiboot. -/
structure Conforms (mem : Mem) (mmapAddr mmapLength : Word) (es : List MmapEntry) : Prop where
  laid : Laid mem mmapAddr es
  size : ∀ e ∈ es, 20 ≤ e.size.toNat
  length : extent es = mmapLength.toNat
  wrap : mmapAddr.toNat + mmapLength.toNat ≤ 2 ^ 32

/-- The loop ends, having reported the entries in order and nothing else, and all it has
read lies inside the map. -/
def ReportsMap (mem : Mem) (mmapAddr mmapLength : Word) (es : List MmapEntry) : Prop :=
  ∃ fuel vs, tpMmap mem mmapAddr mmapLength fuel = some vs ∧
    vs.map Visit.report = es.map MmapEntry.report ∧
    ∀ v ∈ vs, ∀ b ∈ entryReads v.entry, b.toNat < mmapAddr.toNat + mmapLength.toNat

variable {mem mem' : Mem} {a b mmapAddr mmapLength entry : Word} {e : MmapEntry}
variable {es : List MmapEntry}

/-! ## What a report depends on -/

theorem toNat_lt_of_mem_entryReads (hb : b ∈ entryReads entry)
    (hentry : entry.toNat + 24 ≤ 2 ^ 32) : b.toNat < entry.toNat + 24 := by
  obtain ⟨k, hk, rfl⟩ := List.mem_map.mp hb
  have hk := List.mem_range.mp hk
  bv_omega

/-! ## Entries of the least size -/

theorem extent_cons : extent (e :: es) = e.size.toNat + 4 + extent es := rfl

/-- The entries lie where `entry++` goes. -/
theorem Laid.map_iterate (h : Laid mem a es) (hsize : ∀ e ∈ es, e.size = 20) :
    (List.iterate (· + sizeofMmapEntry) a es.length).map (mmapEntryAt mem) = es := by
  induction es generalizing a with
  | nil => rfl
  | cons e es ih =>
    obtain ⟨he, hes⟩ := h
    have hnext : a + e.size + 4 = a + sizeofMmapEntry := by
      rw [hsize e List.mem_cons_self, BitVec.add_assoc]
      rfl
    rw [hnext] at hes
    have hrest := ih hes fun e' he' => hsize e' (List.mem_cons_of_mem _ he')
    rw [List.length_cons, List.iterate, List.map_cons, he, hrest]

theorem extent_of_size (hsize : ∀ e ∈ es, e.size = 20) : extent es = es.length * 24 := by
  induction es with
  | nil => rfl
  | cons e es ih =>
    have he : e.size.toNat = 20 := by
      rw [hsize e List.mem_cons_self]
      rfl
    have hrest := ih fun e' he' => hsize e' (List.mem_cons_of_mem _ he')
    rw [extent_cons, List.length_cons, hrest, he]
    omega

/-- An entry is never shorter than the structure. -/
theorem length_le_extent (hsize : ∀ e ∈ es, 20 ≤ e.size.toNat) : es.length * 24 ≤ extent es := by
  induction es with
  | nil => exact Nat.le_refl 0
  | cons e es ih =>
    have he := hsize e List.mem_cons_self
    have hrest := ih fun e' he' => hsize e' (List.mem_cons_of_mem _ he')
    rw [extent_cons, List.length_cons]
    omega

/-- A map that takes no more bytes than so many structures has entries of the least size
only. -/
theorem size_of_extent (hsize : ∀ e ∈ es, 20 ≤ e.size.toNat)
    (hle : extent es ≤ es.length * 24) : ∀ e ∈ es, e.size = 20 := by
  induction es with
  | nil => exact fun e he => absurd he List.not_mem_nil
  | cons e es ih =>
    have he := hsize e List.mem_cons_self
    have htail : ∀ e' ∈ es, 20 ≤ e'.size.toNat := fun e' he' =>
      hsize e' (List.mem_cons_of_mem _ he')
    have hrest := length_le_extent htail
    rw [extent_cons, List.length_cons] at hle
    intro e' he'
    rcases List.mem_cons.mp he' with rfl | he'
    · have hlit : (20 : Word).toNat = 20 := rfl
      exact BitVec.eq_of_toNat_eq (by omega)
    · exact ih htail (by omega) e' he'

/-! ## The maps that are printed -/

theorem visit_report (mem : Mem) (ps : List Word) :
    (ps.map (visit mem)).map Visit.report = (ps.map (mmapEntryAt mem)).map MmapEntry.report := by
  rw [List.map_map, List.map_map]
  rfl

/-- With entries of the least size, and an end that is an address, the loop meets every
entry. -/
theorem Conforms.reportsMap (h : Conforms mem mmapAddr mmapLength es)
    (hsize : ∀ e ∈ es, e.size = 20) (hend : mmapAddr.toNat + mmapLength.toNat < 2 ^ 32) :
    ReportsMap mem mmapAddr mmapLength es := by
  have hstop : (mmapAddr + mmapLength).toNat = mmapAddr.toNat + mmapLength.toNat := by
    rw [BitVec.toNat_add]
    exact Nat.mod_eq_of_lt hend
  have hlength : mmapLength.toNat = es.length * 24 := by
    rw [← h.length]
    exact extent_of_size hsize
  have hsizeof : sizeofMmapEntry.toNat = 24 := rfl
  have hcollect : tpMmap mem mmapAddr mmapLength (es.length + 1)
      = some ((List.iterate (· + sizeofMmapEntry) mmapAddr es.length).map (visit mem)) :=
    Stride.collect_eq (fun i hi => by rw [hstop, hsizeof]; omega) (by rw [hstop, hsizeof]; omega)
      (by rw [hsizeof]; omega) (Nat.lt_succ_self _)
  refine ⟨_, _, hcollect, ?_, ?_⟩
  · rw [visit_report, h.laid.map_iterate hsize]
  · intro v hv b hb
    obtain ⟨p, hp, rfl⟩ := List.mem_map.mp hv
    obtain ⟨i, hi, rfl⟩ := List.mem_iterate.mp hp
    have hplace := Stride.toNat_iterate (p := mmapAddr) (d := sizeofMmapEntry) (n := i)
      (by rw [hsizeof]; omega)
    rw [hsizeof] at hplace
    have hbyte := toNat_lt_of_mem_entryReads hb (by rw [visit, hplace]; omega)
    rw [visit, hplace] at hbyte
    omega

/-- A loop that has reported as many entries as there are has gone that many structures
on. -/
theorem Conforms.size_of_reportsMap (h : Conforms mem mmapAddr mmapLength es)
    (hmap : ReportsMap mem mmapAddr mmapLength es)
    (hend : mmapAddr.toNat + mmapLength.toNat < 2 ^ 32) : ∀ e ∈ es, e.size = 20 := by
  obtain ⟨fuel, vs, hvs, hreports, -⟩ := hmap
  have hcount : vs.length = es.length := by
    have h := congrArg List.length hreports
    rwa [List.length_map, List.length_map] at h
  have hpast := Stride.le_of_collect hvs
  rw [hcount, BitVec.le_def, BitVec.toNat_add, Nat.mod_eq_of_lt hend] at hpast
  have hsizeof : sizeofMmapEntry.toNat = 24 := rfl
  have hlength := h.length
  refine size_of_extent h.size (Nat.le_of_not_lt fun hlt => ?_)
  have hplace := Stride.toNat_iterate (p := mmapAddr) (d := sizeofMmapEntry) (n := es.length)
    (by rw [hsizeof]; omega)
  rw [hplace, hsizeof] at hpast
  omega

/-- Where the end of the map is the end of the address space, the sum in the condition
is zero and nothing is printed. -/
theorem eq_nil_of_reportsMap (hmap : ReportsMap mem mmapAddr mmapLength es)
    (hend : mmapAddr.toNat + mmapLength.toNat = 2 ^ 32) : es = [] := by
  obtain ⟨fuel, vs, hvs, hreports, -⟩ := hmap
  have hstop : mmapAddr + mmapLength = 0#32 := by
    apply BitVec.eq_of_toNat_eq
    rw [BitVec.toNat_add, hend]
    rfl
  have hnil : vs = [] := by
    unfold tpMmap at hvs
    rw [hstop] at hvs
    cases fuel with
    | zero => cases hvs
    | succ fuel =>
      rw [Stride.collect_of_not_lt BitVec.not_lt_zero] at hvs
      exact (Option.some.inj hvs).symm
  rw [hnil, List.map_nil] at hreports
  exact List.map_eq_nil_iff.mp hreports.symm

/-- The loop prints the map exactly when every entry is as long as the structure and the
address behind the map is one, unless there is nothing to print. -/
theorem reportsMap_iff (h : Conforms mem mmapAddr mmapLength es) :
    ReportsMap mem mmapAddr mmapLength es ↔
      (∀ e ∈ es, e.size = 20) ∧
        (es = [] ∨ mmapAddr.toNat + mmapLength.toNat < 2 ^ 32) := by
  have hwrap := h.wrap
  constructor
  · intro hmap
    rcases Nat.lt_or_ge (mmapAddr.toNat + mmapLength.toNat) (2 ^ 32) with hend | hend
    · exact ⟨h.size_of_reportsMap hmap hend, .inr hend⟩
    · have hnil := eq_nil_of_reportsMap hmap (by omega)
      subst hnil
      exact ⟨fun e he => absurd he List.not_mem_nil, .inl rfl⟩
  · rintro ⟨hsize, rfl | hend⟩
    · have hzero := h.length
      have haddr := mmapAddr.isLt
      exact h.reportsMap hsize (by rw [← hzero]; exact haddr)
    · exact h.reportsMap hsize hend

/-! ## Samples -/

/-- A memory with the fields of an entry stored at `a`. -/
def storeEntry (mem : Mem) (a : Word) (e : MmapEntry) : Mem :=
  let mem := mem.write32 a e.size
  let mem := (mem.write32 (a + 4) (e.addr.setWidth 32)).write32 (a + 8) (field e.addr 32 32)
  let mem := (mem.write32 (a + 12) (e.len.setWidth 32)).write32 (a + 16) (field e.len 32 32)
  mem.write32 (a + 20) e.type

def lowMemory : MmapEntry where
  size := 20
  addr := 0
  len := 0x9fc00
  type := multibootMemoryAvailable

def biosMemory : MmapEntry where
  size := 20
  addr := 0x9fc00
  len := 0x400
  type := multibootMemoryReserved

def sampleMem : Mem := storeEntry (storeEntry (fun _ => 0) 0x9000 lowMemory) 0x9018 biosMemory

theorem conforms_sampleMem : Conforms sampleMem 0x9000 48 [lowMemory, biosMemory] where
  laid := ⟨by decide +kernel, by decide +kernel, trivial⟩
  size := by decide
  length := by decide
  wrap := by decide

theorem reportsMap_sampleMem : ReportsMap sampleMem 0x9000 48 [lowMemory, biosMemory] :=
  (reportsMap_iff conforms_sampleMem).mpr ⟨by decide, .inr (by decide)⟩

/-- An entry with 24 bytes behind the structure. -/
def extendedMemory : MmapEntry where
  size := 44
  addr := 0x100000
  len := 0x7ee0000
  type := multibootMemoryAvailable

def extendedMem : Mem := storeEntry (fun _ => 0) 0x9000 extendedMemory

theorem conforms_extendedMem : Conforms extendedMem 0x9000 48 [extendedMemory] where
  laid := ⟨by decide +kernel, trivial⟩
  size := by decide
  length := by decide
  wrap := by decide

/-- What lies behind the structure is printed as another entry. -/
theorem not_reportsMap_extendedMem :
    Conforms extendedMem 0x9000 48 [extendedMemory] ∧
      ¬ ReportsMap extendedMem 0x9000 48 [extendedMemory] := by
  refine ⟨conforms_extendedMem, fun hmap => ?_⟩
  have hsize := conforms_extendedMem.size_of_reportsMap hmap (by decide)
  exact absurd (hsize extendedMemory List.mem_cons_self) (by decide)

end Tp0

end SecOS
