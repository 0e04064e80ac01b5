-- SUMMARY: Positional numerals: digits from the most significant one on, canonical or of a fixed width, and the number they write.
import Mathlib.Data.Nat.Digits.Lemmas

/-!
# Numerals

A numeral is a list of digits, the most significant one first. Mathlib's
`Nat.digits` goes the other way and has no digit for zero; a printed numeral has one.
-/

namespace Numeral

/-- The number that `ds` writes in base `b`. -/
def value (b : Nat) (ds : List Nat) : Nat := ds.foldl (fun n d => b * n + d) 0

/-- No digit more than needed, and one for zero. -/
def canonical (b n : Nat) : List Nat := if n = 0 then [0] else (Nat.digits b n).reverse

/-- The `k` last digits of `n`. -/
def low (b : Nat) : Nat → Nat → List Nat
  | 0, _ => []
  | k + 1, n => low b k (n / b) ++ [n % b]

/-- A numeral that starts with zero is zero itself. -/
def NoLeadingZero (ds : List Nat) : Prop := ds.head? = some 0 → ds = [0]

variable {b k n d : Nat} {ds : List Nat}

/-! ## Values -/

@[simp] theorem value_nil : value b [] = 0 := rfl

theorem value_snoc : value b (ds ++ [d]) = b * value b ds + d := by simp [value]

theorem value_reverse : value b ds.reverse = Nat.ofDigits b ds := by
  induction ds with
  | nil => rfl
  | cons d ds ih => rw [List.reverse_cons, value_snoc, ih, Nat.ofDigits_cons, Nat.add_comm]

/-! ## Canonical numerals -/

theorem canonical_of_ne_zero (h : n ≠ 0) : canonical b n = (Nat.digits b n).reverse := if_neg h

@[simp] theorem canonical_zero : canonical b 0 = [0] := rfl

theorem canonical_ne_nil : canonical b n ≠ [] := by
  by_cases h : n = 0
  · subst h
    exact List.cons_ne_nil _ _
  · rw [canonical_of_ne_zero h]
    exact fun hnil => h (Nat.digits_eq_nil_iff_eq_zero.mp (List.reverse_eq_nil_iff.mp hnil))

theorem value_canonical : value b (canonical b n) = n := by
  by_cases h : n = 0
  · subst h
    simp [value]
  · rw [canonical_of_ne_zero h, value_reverse, Nat.ofDigits_digits]

theorem lt_of_mem_canonical (hb : 1 < b) (h : d ∈ canonical b n) : d < b := by
  by_cases hn : n = 0
  · subst hn
    obtain rfl : d = 0 := by simpa using h
    omega
  · rw [canonical_of_ne_zero hn, List.mem_reverse] at h
    exact Nat.digits_lt_base hb h

theorem noLeadingZero_canonical : NoLeadingZero (canonical b n) := by
  intro hhead
  by_cases h : n = 0
  · rw [h, canonical_zero]
  · have hne : Nat.digits b n ≠ [] := Nat.digits_ne_nil_iff_ne_zero.mpr h
    rw [canonical_of_ne_zero h, List.head?_reverse, List.getLast?_eq_some_getLast hne] at hhead
    exact absurd (Option.some.inj hhead) (Nat.getLast_digit_ne_zero b h)

/-- The symbols of Lean's own numerals stand for these digits. -/
theorem toDigits_eq_map (hb : 1 < b) (n : Nat) :
    Nat.toDigits b n = (canonical b n).map Nat.digitChar := by
  induction n using Nat.strongRecOn with
  | ind n ih =>
    rw [Nat.toDigits_eq_if hb]
    split
    · next hlt =>
      by_cases h : n = 0
      · subst h
        rfl
      · rw [canonical_of_ne_zero h, Nat.digits_of_lt b n h hlt]
        rfl
    · next hge =>
      have hdiv : n / b ≠ 0 := (Nat.div_pos (by omega) (by omega)).ne'
      rw [ih (n / b) (Nat.div_lt_self (by omega) hb), canonical_of_ne_zero hdiv,
        canonical_of_ne_zero (by omega), Nat.digits_def' hb (n := n) (by omega), List.reverse_cons,
        List.map_append]
      rfl

/-! ## Numerals of a fixed width -/

@[simp] theorem length_low : (low b k n).length = k := by
  induction k generalizing n with
  | zero => rfl
  | succ k ih => rw [low, List.length_append, ih]; rfl

theorem lt_of_mem_low (hb : 0 < b) (h : d ∈ low b k n) : d < b := by
  induction k generalizing n with
  | zero => cases h
  | succ k ih =>
    rw [low, List.mem_append, List.mem_singleton] at h
    rcases h with h | rfl
    · exact ih h
    · exact Nat.mod_lt _ hb

theorem value_low : value b (low b k n) = n % b ^ k := by
  induction k generalizing n with
  | zero => rw [low, value_nil, Nat.pow_zero, Nat.mod_one]
  | succ k ih =>
    rw [low, value_snoc, ih, Nat.pow_succ', Nat.mod_mul, Nat.add_comm]

/-- The digits of fixed places: place `i` from the left counts `b ^ (k - i - 1)`. -/
theorem low_eq_map_range (b k n : Nat) :
    low b k n = (List.range k).map fun i => n / b ^ (k - i - 1) % b := by
  induction k generalizing n with
  | zero => rfl
  | succ k ih =>
    have hplaces : ∀ i ∈ List.range k,
        n / b / b ^ (k - i - 1) % b = n / b ^ (k + 1 - i - 1) % b := by
      intro i hi
      have hlt := List.mem_range.mp hi
      have hexp : k + 1 - i - 1 = k - i - 1 + 1 := by omega
      rw [Nat.div_div_eq_div_mul, hexp, Nat.pow_succ']
    have hlast : k + 1 - k - 1 = 0 := by omega
    rw [low, ih, List.range_succ, List.map_append, List.map_singleton, hlast, Nat.pow_zero,
      Nat.div_one, List.map_congr_left hplaces]

end Numeral
