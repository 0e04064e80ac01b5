-- SUMMARY: Chains given by a partial successor: walks along them, cycles, and when a walk comes to an end.
import Mathlib.Data.Fintype.EquivFin

/-!
# Chains

A partial function `next` links each element to at most one other, as the pointers
of a linked structure do. A walk along the links either comes to an element without
one or goes on for ever; over finitely many elements it goes on for ever exactly when
it meets a cycle.
-/

namespace Chain

variable {α : Type*}

/-- Follow `n` links. -/
def walk (next : α → Option α) : Nat → α → Option α
  | 0, a => some a
  | n + 1, a => (next a).bind (walk next n)

/-- The walk comes to an element without a link. -/
def Halts (next : α → Option α) (a : α) : Prop := ∃ n, walk next n a = none

/-- `b` is met on the walk from `a`. -/
def Reaches (next : α → Option α) (a b : α) : Prop := ∃ n, walk next n a = some b

/-- The walk from `a` comes back to it. -/
def OnCycle (next : α → Option α) (a : α) : Prop := ∃ n, walk next (n + 1) a = some a

variable {next : α → Option α} {a b : α}

@[simp] theorem walk_zero : walk next 0 a = some a := rfl

theorem walk_succ (n : Nat) : walk next (n + 1) a = (next a).bind (walk next n) := rfl

theorem walk_add (k n : Nat) : walk next (k + n) a = (walk next k a).bind (walk next n) := by
  induction k generalizing a with
  | zero => simp
  | succ k ih =>
    rw [Nat.succ_add, walk_succ, walk_succ]
    cases hnext : next a with
    | none => rfl
    | some b => exact ih

/-- Once it has ended a walk stays so. -/
theorem walk_none_of_le {k n : Nat} (h : walk next k a = none) (hk : k ≤ n) :
    walk next n a = none := by
  obtain ⟨j, rfl⟩ := Nat.exists_eq_add_of_le hk
  rw [walk_add, h]
  rfl

theorem Reaches.halts (h : Reaches next a b) (ha : Halts next a) : Halts next b := by
  obtain ⟨k, hk⟩ := h
  obtain ⟨n, hn⟩ := ha
  have hlong := walk_none_of_le hn (Nat.le_add_left n k)
  rw [walk_add, hk] at hlong
  exact ⟨n, hlong⟩

/-- A walk goes round a cycle as often as one likes. -/
theorem OnCycle.walk_mul {n : Nat} (h : walk next (n + 1) a = some a) (k : Nat) :
    walk next ((n + 1) * k) a = some a := by
  induction k with
  | zero => rfl
  | succ k ih =>
    rw [Nat.mul_succ, walk_add, ih]
    exact h

theorem OnCycle.not_halts (h : OnCycle next a) : ¬ Halts next a := by
  obtain ⟨n, hn⟩ := h
  rintro ⟨k, hk⟩
  have hend := walk_none_of_le hk (Nat.le_mul_of_pos_left k (Nat.succ_pos n))
  rw [OnCycle.walk_mul hn] at hend
  exact Option.some_ne_none a hend

section Finite

variable [Finite α]

/-- A walk that never ends meets an element twice. -/
theorem exists_onCycle_of_not_halts (h : ¬ Halts next a) :
    ∃ b, Reaches next a b ∧ OnCycle next b := by
  have hsome (n : Nat) : ∃ b, walk next n a = some b := by
    rw [← Option.ne_none_iff_exists']
    intro hnone
    exact h ⟨n, hnone⟩
  choose at_ hat using hsome
  obtain ⟨i, j, hne, heq⟩ : ∃ i j, i ≠ j ∧ at_ i = at_ j := by
    have hinj := not_injective_infinite_finite at_
    simp only [Function.Injective, not_forall] at hinj
    obtain ⟨i, j, heq, hne⟩ := hinj
    exact ⟨i, j, hne, heq⟩
  wlog hlt : i < j generalizing i j
  · exact this j i hne.symm heq.symm (by omega)
  · obtain ⟨k, rfl⟩ := Nat.exists_eq_add_of_lt hlt
    have hround := hat (i + k + 1)
    rw [Nat.add_assoc, walk_add, hat i, ← Nat.add_assoc, ← heq] at hround
    exact ⟨at_ i, ⟨i, hat i⟩, k, hround⟩

/-- A walk over finitely many elements ends exactly when it meets no cycle. -/
theorem halts_iff : Halts next a ↔ ∀ b, Reaches next a b → ¬ OnCycle next b := by
  constructor
  · intro h b hreach hcycle
    exact hcycle.not_halts (hreach.halts h)
  · intro h
    by_contra hnot
    obtain ⟨b, hreach, hcycle⟩ := exists_onCycle_of_not_halts hnot
    exact h b hreach hcycle

end Finite

section Ascending

variable {height : α → ℕ}

/-- Links that only go up do not lead back. -/
theorem lt_of_walk (hup : ∀ b c, next b = some c → height b < height c) {n : ℕ}
    (h : walk next (n + 1) a = some b) : height a < height b := by
  induction n generalizing a with
  | zero =>
    rw [walk_succ, Option.bind_eq_some_iff] at h
    obtain ⟨c, hc, hb⟩ := h
    obtain rfl := Option.some.inj hb
    exact hup a c hc
  | succ n ih =>
    rw [walk_succ, Option.bind_eq_some_iff] at h
    obtain ⟨c, hc, hb⟩ := h
    exact (hup a c hc).trans (ih hb)

/-- Over finitely many elements a walk up ends. -/
theorem halts_of_lt [Finite α] (height : α → ℕ)
    (hup : ∀ b c, next b = some c → height b < height c) (a : α) : Halts next a := by
  rw [halts_iff]
  rintro b - ⟨n, hn⟩
  exact Nat.lt_irrefl _ (lt_of_walk hup hn)

end Ascending

end Chain
