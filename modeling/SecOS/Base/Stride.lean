-- SUMMARY: A pointer that goes up by a fixed stride until it is no longer below an end: the places it meets, and where it stops.
import Mathlib.Data.BitVec
import Mathlib.Data.List.Iterate

/-!
# Strides

The loop `while(p < stop) { visit(p); p += d; }` over addresses that wrap. It meets the
places `p`, `p + d`, `p + 2 d`, … and ends at the first one that is not below `stop`,
which it may jump over and never see.
-/

namespace Stride

variable {w : Nat} {β : Type*}

/-- What the visits give, one after another, when the loop ends before the fuel does. -/
def collect (visit : BitVec w → β) (d stop : BitVec w) : Nat → BitVec w → Option (List β)
  | 0, _ => none
  | fuel + 1, p =>
    if p < stop then (collect visit d stop fuel (p + d)).map (visit p :: ·) else some []

variable {visit : BitVec w → β} {d stop p : BitVec w} {fuel n : Nat} {bs : List β}

theorem collect_of_not_lt (h : ¬ p < stop) : collect visit d stop (fuel + 1) p = some [] :=
  if_neg h

theorem collect_of_lt (h : p < stop) :
    collect visit d stop (fuel + 1) p
      = (collect visit d stop fuel (p + d)).map (visit p :: ·) := if_pos h

/-- As long as addresses do not wrap, the places are those of natural numbers. -/
theorem toNat_iterate (h : p.toNat + n * d.toNat < 2 ^ w) :
    ((· + d)^[n] p).toNat = p.toNat + n * d.toNat := by
  induction n generalizing p with
  | zero => rw [Function.iterate_zero_apply, Nat.zero_mul, Nat.add_zero]
  | succ n ih =>
    rw [Nat.add_mul] at h
    have hstep : (p + d).toNat = p.toNat + d.toNat := by
      rw [BitVec.toNat_add]
      exact Nat.mod_eq_of_lt (by omega)
    rw [Function.iterate_succ_apply, ih (by rw [hstep]; omega), hstep, Nat.add_mul]
    omega

/-- A loop that ends has left the end behind it. -/
theorem le_of_collect (h : collect visit d stop fuel p = some bs) :
    stop ≤ (· + d)^[bs.length] p := by
  induction fuel generalizing p bs with
  | zero => cases h
  | succ fuel ih =>
    by_cases hlt : p < stop
    · rw [collect_of_lt hlt, Option.map_eq_some_iff] at h
      obtain ⟨cs, hcs, rfl⟩ := h
      have hrest := ih hcs
      exact hrest
    · rw [collect_of_not_lt hlt] at h
      obtain rfl := Option.some.inj h
      exact BitVec.not_lt.mp hlt

/-- The visits of a loop whose first `n` places are below the end and the next one is
not. -/
theorem collect_eq (hlt : ∀ i < n, p.toNat + i * d.toNat < stop.toNat)
    (hend : stop.toNat ≤ p.toNat + n * d.toNat) (hwrap : p.toNat + n * d.toNat < 2 ^ w)
    (hfuel : n < fuel) :
    collect visit d stop fuel p = some ((List.iterate (· + d) p n).map visit) := by
  induction n generalizing p fuel with
  | zero =>
    obtain ⟨fuel, rfl⟩ : ∃ k, fuel = k + 1 := ⟨fuel - 1, by omega⟩
    refine collect_of_not_lt (BitVec.not_lt.mpr ?_)
    rw [BitVec.le_def]
    omega
  | succ n ih =>
    obtain ⟨fuel, rfl⟩ : ∃ k, fuel = k + 1 := ⟨fuel - 1, by omega⟩
    have hfirst : p < stop := by
      have h := hlt 0 (Nat.succ_pos n)
      rw [BitVec.lt_def]
      omega
    have hstep : (p + d).toNat = p.toNat + d.toNat := by
      rw [BitVec.toNat_add]
      refine Nat.mod_eq_of_lt ?_
      rw [Nat.add_mul] at hwrap
      omega
    have hrest : collect visit d stop fuel (p + d)
        = some ((List.iterate (· + d) (p + d) n).map visit) := by
      refine ih (fun i hi => ?_) ?_ ?_ (by omega)
      · have h := hlt (i + 1) (by omega)
        rw [Nat.add_mul] at h
        omega
      · rw [Nat.add_mul] at hend
        omega
      · rw [Nat.add_mul] at hwrap
        omega
    rw [collect_of_lt hfirst, hrest]
    rfl

end Stride
