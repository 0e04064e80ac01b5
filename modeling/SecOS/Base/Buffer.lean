-- SUMMARY: Buffers that elements are appended to one at a time, up to a length; what does not fit is dropped.
import Mathlib.Data.List.Basic
import Mathlib.Logic.Function.Basic

/-!
# Bounded buffers

A buffer is a place for elements, numbered from its start, with the number of those in
use. Nothing is known about the places that are not in use. Appending to a buffer that
is full does nothing, so a list that is appended element by element is cut where the
buffer ends.
-/

structure Buffer (α : Type*) where
  data : Nat → α
  sz : Nat

namespace Buffer

variable {α : Type*}

/-- Append `c` unless `len` elements are in use. -/
def add (len : Nat) (b : Buffer α) (c : α) : Buffer α :=
  if b.sz < len then { data := Function.update b.data b.sz c, sz := b.sz + 1 } else b

def addAll (len : Nat) (b : Buffer α) (cs : List α) : Buffer α := cs.foldl (add len) b

variable {len i : Nat} {b b' : Buffer α} {c : α} {cs ds : List α}

/-! ## Appending a list -/

@[simp] theorem addAll_nil : addAll len b [] = b := rfl

@[simp] theorem addAll_cons : addAll len b (c :: cs) = addAll len (add len b c) cs := rfl

theorem addAll_append : addAll len b (cs ++ ds) = addAll len (addAll len b cs) ds :=
  List.foldl_append

/-- Nothing is appended to a full buffer. -/
theorem addAll_of_le (h : len ≤ b.sz) : addAll len b cs = b := by
  induction cs with
  | nil => rfl
  | cons c cs ih => rw [addAll_cons, add, if_neg (by omega), ih]

theorem sz_addAll (h : b.sz ≤ len) : (addAll len b cs).sz = min (b.sz + cs.length) len := by
  induction cs generalizing b with
  | nil =>
    rw [addAll_nil, List.length_nil]
    omega
  | cons c cs ih =>
    rw [addAll_cons, List.length_cons]
    unfold add
    split
    · rw [ih (by simp only; omega)]
      simp only
      omega
    · rw [ih h]
      omega

/-- What was in use stays, and so does everything behind the end. -/
theorem data_addAll_of_lt (hi : i < b.sz) : (addAll len b cs).data i = b.data i := by
  induction cs generalizing b with
  | nil => rfl
  | cons c cs ih =>
    rw [addAll_cons]
    unfold add
    split
    · rw [ih (Nat.lt_succ_of_lt hi)]
      exact Function.update_of_ne (by omega) _ _
    · exact ih hi

theorem data_addAll_of_le (hi : len ≤ i) : (addAll len b cs).data i = b.data i := by
  induction cs generalizing b with
  | nil => rfl
  | cons c cs ih =>
    rw [addAll_cons, ih]
    unfold add
    split
    · exact Function.update_of_ne (by omega) _ _
    · rfl

theorem data_addAll_of_length_le (hi : b.sz + cs.length ≤ i) :
    (addAll len b cs).data i = b.data i := by
  induction cs generalizing b with
  | nil => rfl
  | cons c cs ih =>
    rw [List.length_cons] at hi
    rw [addAll_cons]
    unfold add
    split
    · rw [ih (by simp only; omega)]
      exact Function.update_of_ne (by omega) _ _
    · exact ih (by omega)

/-- Element `i` of the list lands `i` places behind the old end, if it fits. -/
theorem data_addAll (hi : i < cs.length) (hlen : b.sz + i < len) :
    (addAll len b cs).data (b.sz + i) = cs[i] := by
  induction cs generalizing b i with
  | nil => exact absurd hi (Nat.not_lt_zero i)
  | cons c cs ih =>
    rw [addAll_cons, add, if_pos (by omega)]
    cases i with
    | zero =>
      rw [data_addAll_of_lt (by simp)]
      exact Function.update_self _ _ _
    | succ i =>
      have hrest := @ih i { data := Function.update b.data b.sz c, sz := b.sz + 1 }
        (by simpa using hi) (by simp only; omega)
      rw [List.getElem_cons_succ, ← hrest]
      exact congrArg _ (by simp only; omega)

/-! ## What appending does -/

/-- `b'` is `b` with as much of `cs` appended as fits into `len` places. -/
structure Appended (len : Nat) (cs : List α) (b b' : Buffer α) : Prop where
  sz : b'.sz = b.sz + min cs.length (len - b.sz)
  data : ∀ i (h : i < cs.length), b.sz + i < len → b'.data (b.sz + i) = cs[i]
  frame : ∀ i, i < b.sz ∨ b'.sz ≤ i → b'.data i = b.data i

theorem appended_addAll (len : Nat) (b : Buffer α) (cs : List α) :
    Appended len cs b (addAll len b cs) := by
  by_cases h : b.sz ≤ len
  · have hsz : (addAll len b cs).sz = _ := sz_addAll h
    refine ⟨by omega, fun i hi hlen => data_addAll hi hlen, ?_⟩
    intro i hi
    rcases hi with hi | hi
    · exact data_addAll_of_lt hi
    · rw [hsz] at hi
      rcases Nat.le_total (b.sz + cs.length) len with hfit | hcut
      · exact data_addAll_of_length_le (by omega)
      · exact data_addAll_of_le (by omega)
  · rw [addAll_of_le (by omega)]
    exact ⟨by omega, fun i hi hlen => absurd hlen (by omega), fun _ _ => rfl⟩

/-- Where everything fits, two lists that are appended with one result are equal. -/
theorem Appended.unique (hb : Appended len cs b b') (hb' : Appended len ds b b')
    (hcs : b.sz + cs.length ≤ len) (hds : b.sz + ds.length ≤ len) : cs = ds := by
  have hlength : cs.length = ds.length := by
    have h := hb.sz
    have h' := hb'.sz
    omega
  refine List.ext_getElem hlength fun i hi hi' => ?_
  rw [← hb.data i hi (by omega), hb'.data i hi' (by omega)]

end Buffer
