-- SUMMARY: The formatter of the kernel: the helpers that append a value to a buffer, and the interpreter of a format.
import SecOS.Base.Buffer
import SecOS.X86.Memory

/-!
# Formatter

`__vsnprintf` and its helpers, from `print.c`. The output buffer is an object of its
own: the arguments, and the strings they point to, are read from a memory that it is not
part of. Sizes are natural numbers; none of them gets near the end of its type, except
for `precision`, which starts at `-1`.
-/

namespace SecOS

open X86

def chr (c : Char) : Byte := BitVec.ofNat 8 c.toNat

/-- Why a call does not return: an array on the stack has no room for what is stored
into it, or a character of the format led to `panic`. -/
inductive Halt where
  | overrun
  | unsupported (c : Byte)
  deriving DecidableEq

/-! ## Appending a value -/

/-- `__buf_add` -/
def bufAdd (buf : Buffer Byte) (len : Nat) (c : Byte) : Buffer Byte := buf.add len c

/-- The bytes of an array on the stack, the one stored last first, as a loop that counts
`sz` down to zero appends them. -/
def addRep (buf : Buffer Byte) (len : Nat) (rep : List Byte) : Buffer Byte :=
  rep.foldl (fun buf c => bufAdd buf len c) buf

/-- The string at `s`. The loop over it comes to an end, since some byte of memory is
zero: the one behind the format. -/
def cString (mem : Mem) (s : Word) : List Byte := go (2 ^ 32) s
where
  go : Nat → Word → List Byte
    | 0, _ => []
    | n + 1, s => if mem s = 0 then [] else mem s :: go n (s + 1)

def formatAddStr (buf : Buffer Byte) (len : Nat) (s : List Byte) : Buffer Byte :=
  s.foldl (fun buf c => bufAdd buf len c) buf

def formatAddChr (buf : Buffer Byte) (len : Nat) (c : Word) : Buffer Byte :=
  bufAdd buf len (c.setWidth 8)

def formatAddBin (buf : Buffer Byte) (len : Nat) (value : BitVec 64) (n : Nat) : Buffer Byte :=
  (List.range n).foldl (fun buf i =>
    let bit := (value >>> (n - i - 1)) &&& 1
    bufAdd buf len (if bit ≠ 0 then chr '1' else chr '0')) buf

/-- `while(value) { rep[sz++] = digit; value = next; }` in an array with `room` places
left. -/
def repLoop (digit : BitVec 64 → Byte) (next : BitVec 64 → BitVec 64) :
    Nat → BitVec 64 → List Byte → Except Halt (List Byte)
  | room, value, rep =>
    if value = 0 then .ok rep else
    match room with
    | 0 => .error .overrun
    | room + 1 => repLoop digit next room (next value) (digit value :: rep)

/-- `sizeof(rep)` of the decimal helpers. -/
def sizeofRep : Nat := 24

/-- The digit and the quotient are those of C: they have the sign of the value. -/
def formatAddIdec (buf : Buffer Byte) (len : Nat) (value : BitVec 64) :
    Except Halt (Buffer Byte) :=
  if value = 0 then .ok (bufAdd buf len (chr '0')) else do
  let (buf, value) :=
    if value.slt 0 then (bufAdd buf len (chr '-'), -value) else (buf, value)
  let rep ← repLoop (fun v => (v.srem 10 + 48).setWidth 8) (fun v => v.sdiv 10) sizeofRep value []
  return addRep buf len rep

/-- The digits that `__format_add_udec` keeps, in an array of `room` places. -/
def udecRep (room : Nat) (value : BitVec 64) : Except Halt (List Byte) :=
  repLoop (fun v => (v % 10 + 48).setWidth 8) (fun v => v / 10) room value []

def formatAddUdec (buf : Buffer Byte) (len : Nat) (value : BitVec 64) :
    Except Halt (Buffer Byte) :=
  if value = 0 then .ok (bufAdd buf len (chr '0')) else do
  let rep ← udecRep sizeofRep value
  return addRep buf len rep

def hextable : List Byte :=
  [chr '0', chr '1', chr '2', chr '3', chr '4', chr '5', chr '6', chr '7',
    chr '8', chr '9', chr 'a', chr 'b', chr 'c', chr 'd', chr 'e', chr 'f']

/-- `sizeof(rep)` of `uint64_to_hex`. -/
def sizeofHexRep : Nat := 16

/-- The loop of `uint64_to_hex` that fills the array. -/
def hexLoop : Nat → BitVec 64 → Word → List Byte → Except Halt (List Byte)
  | room, value, precision, rep =>
    if precision ≠ 0 ∧ ¬ (16 < precision ∧ value = 0 ∧ rep.length ≠ 0) then
      match room with
      | 0 => .error .overrun
      | room + 1 =>
        hexLoop room (value >>> 4) (precision - 1)
          ((hextable[(value &&& 0xf).toNat]?.getD 0) :: rep)
    else .ok rep

/-- The buffer, and the number of digits. -/
def uint64ToHex (buf : Buffer Byte) (len : Nat) (value : BitVec 64) (precision : Word) :
    Except Halt (Buffer Byte × Nat) := do
  let precision := if precision = 0 ∨ 16 < precision then -1 else precision
  let rep ← hexLoop sizeofHexRep value precision []
  return (addRep buf len rep, rep.length)

def formatAddHex (buf : Buffer Byte) (len : Nat) (value : BitVec 64) (precision : Word) :
    Except Halt (Buffer Byte) :=
  (uint64ToHex buf len value precision).map Prod.fst

/-! ## Arguments -/

/-- `va_arg` of a type of one word: the value, and where the next argument is. -/
def vaArg32 (mem : Mem) (params : Word) : Word × Word := (mem.read32 params, params + 4)

def vaArg64 (mem : Mem) (params : Word) : BitVec 64 × Word :=
  (mem.read32 (params + 4) ++ mem.read32 params, params + 8)

/-- The argument of `%d` and `%i`. -/
def vaArgSigned (mem : Mem) (params : Word) (size : Nat) : BitVec 64 × Word :=
  if 8 ≤ size then vaArg64 mem params
  else
    let (value, params) := vaArg32 mem params
    if size = 4 then (value.signExtend 64, params)
    else if size = 2 then ((value.setWidth 16).signExtend 64, params)
    else ((value.setWidth 8).signExtend 64, params)

/-- The argument of `%u` and `%x`. -/
def vaArgUnsigned (mem : Mem) (params : Word) (size : Nat) : BitVec 64 × Word :=
  if 8 ≤ size then vaArg64 mem params
  else
    let (value, params) := vaArg32 mem params
    if size = 4 then (value.setWidth 64, params)
    else if size = 2 then ((value.setWidth 16).setWidth 64, params)
    else ((value.setWidth 8).setWidth 64, params)

/-! ## The interpreter -/

/-- The local variables of `__vsnprintf`. -/
structure FmtState where
  buf : Buffer Byte
  params : Word
  interp : Bool
  lng : Bool
  size : Nat

/-- The end of a conversion. -/
def FmtState.done (st : FmtState) (buf : Buffer Byte) (params : Word) : FmtState :=
  { st with buf, params, interp := false, lng := false }

/-- One character of the format. -/
def vsnprintfStep (mem : Mem) (len : Nat) (st : FmtState) (c : Byte) : Except Halt FmtState :=
  if st.interp then
    if c = chr 'l' then
      if st.lng then .ok { st with size := 8 } else .ok { st with lng := true }
    else if c = chr 'h' then .ok { st with size := st.size / 2 }
    else if c = chr 's' then
      let (value, params) := vaArg32 mem st.params
      .ok (st.done (formatAddStr st.buf len (cString mem value)) params)
    else if c = chr 'c' then
      let (value, params) := vaArg32 mem st.params
      .ok (st.done (formatAddChr st.buf len value) params)
    else if c = chr 'b' then
      let (value, params) := vaArg32 mem st.params
      .ok (st.done (formatAddBin st.buf len (value.setWidth 64) 32) params)
    else if c = chr 'B' then
      let (value, params) := vaArg64 mem st.params
      .ok (st.done (formatAddBin st.buf len value 64) params)
    else if c = chr 'd' ∨ c = chr 'i' then
      let (value, params) := vaArgSigned mem st.params st.size
      (formatAddIdec st.buf len value).map (st.done · params)
    else if c = chr 'u' ∨ c = chr 'x' then
      let (value, params) := vaArgUnsigned mem st.params st.size
      if c = chr 'u' then (formatAddUdec st.buf len value).map (st.done · params)
      else (formatAddHex st.buf len value 0).map (st.done · params)
    else if c = chr 'D' then
      let (value, params) := vaArg64 mem st.params
      (formatAddIdec st.buf len value).map (st.done · params)
    else if c = chr 'X' then
      let (value, params) := vaArg64 mem st.params
      (formatAddHex st.buf len value 0).map (st.done · params)
    else if c = chr 'p' then
      let (value, params) := vaArg32 mem st.params
      let buf := formatAddStr st.buf len [chr '0', chr 'x']
      (formatAddHex buf len (value.setWidth 64) 0).map (st.done · params)
    else if chr '0' ≤ c ∧ c ≤ chr '9' then .ok st
    else if c = chr '%' then .ok (st.done (bufAdd st.buf len c) st.params)
    else .error (.unsupported c)
  else if c = chr '%' then .ok { st with interp := true, size := 4 }
  else .ok { st with buf := bufAdd st.buf len c }

/-- The loop over the format. -/
def vsnprintfLoop (mem : Mem) (len : Nat) : FmtState → List Byte → Except Halt FmtState
  | st, [] => .ok st
  | st, c :: format => (vsnprintfStep mem len st c).bind (vsnprintfLoop mem len · format)

/-- The state before the first character. -/
def vsnprintfInit (data : Nat → Byte) (params : Word) : FmtState where
  buf := { data, sz := 0 }
  params
  interp := false
  lng := false
  size := 4

/-- `if(len) len--;` -/
def roomFor (len : Nat) : Nat := if len ≠ 0 then len - 1 else len

/-- What is left in the caller's buffer, of `len` bytes, and the value returned. -/
def vsnprintf (mem : Mem) (data : Nat → Byte) (len : Nat) (format : List Byte) (params : Word) :
    Except Halt ((Nat → Byte) × Nat) := do
  let st ← vsnprintfLoop mem (roomFor len) (vsnprintfInit data params) format
  return (Function.update st.buf.data st.buf.sz 0, st.buf.sz + 1)

/-- `params` is the address of the first argument behind the format. -/
def snprintf (mem : Mem) (data : Nat → Byte) (len : Nat) (format : List Byte) (params : Word) :
    Except Halt ((Nat → Byte) × Nat) :=
  vsnprintf mem data len format params

end SecOS
