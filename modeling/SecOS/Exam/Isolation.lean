-- SUMMARY: Isolation of the address spaces over all runs, and where an event can write at all.
import SecOS.Exam.Sample

/-!
# Isolation

Both tasks share one page and nothing else, and neither reaches the kernel. That is a
property of the page tables alone, and no event of a run writes to them.
-/

namespace SecOS

open X86

/-! ## Isolated address spaces -/

/-- A physical byte that task `i` can reach at level 3. -/
def UserReachable (m : Mem) (i : Fin 2) (pa : Word) : Prop :=
  ∃ va, userTranslate m (pgdOf i) va = some pa

/-- What the exam asks of its three address spaces. -/
structure Isolated (m : Mem) : Prop where
  /-- The kernel's part is mapped to itself everywhere, for level 0 only. -/
  kernel : ∀ dir ∈ [pgd, pgdTask1, pgdTask2], ∀ va, va.toNat < 0x400000 →
    walk m dir va = some { pa := va, user := false, rw := true }
  /-- What each task sees, at every address. -/
  task : ∀ i va, userTranslate m (pgdOf i) va = userMap i va
  /-- The shared page is all that both reach. -/
  shared : ∀ pa, (UserReachable m 0 pa ∧ UserReachable m 1 pa) ↔
    0xe00000 ≤ pa.toNat ∧ pa.toNat < 0xe01000
  /-- No task reaches the kernel's memory. -/
  supervisor : ∀ i pa, UserReachable m i pa → 0x400000 ≤ pa.toNat

section UserMap

variable {pa : Word}

/-- What task 0 reaches: its own four megabytes and the shared page. -/
theorem exists_userMap_zero :
    (∃ va, userMap 0 va = some pa) ↔
      (0x400000 ≤ pa.toNat ∧ pa.toNat < 0x800000) ∨
        (0xe00000 ≤ pa.toNat ∧ pa.toNat < 0xe01000) := by
  constructor
  · rintro ⟨va, hva⟩
    simp only [userMap] at hva
    split at hva
    · next h => exact .inl (Option.some.inj hva ▸ h)
    · split at hva
      · next h =>
        rw [← Option.some.inj hva]
        exact .inr (by bv_omega)
      · cases hva
  · rintro (h | h)
    · exact ⟨pa, if_pos h⟩
    · refine ⟨pa - 0xe00000 + 0x800000, ?_⟩
      have hback : pa - 0xe00000 + 0x800000 - 0x800000 + 0xe00000 = pa := by bv_omega
      simp only [userMap]
      rw [if_neg (by bv_omega), if_pos (by bv_omega), hback]

/-- And task 1 likewise. -/
theorem exists_userMap_one :
    (∃ va, userMap 1 va = some pa) ↔
      (0x800000 ≤ pa.toNat ∧ pa.toNat < 0xc00000) ∨
        (0xe00000 ≤ pa.toNat ∧ pa.toNat < 0xe01000) := by
  constructor
  · rintro ⟨va, hva⟩
    simp only [userMap] at hva
    split at hva
    · next h => exact .inl (Option.some.inj hva ▸ h)
    · split at hva
      · next h =>
        rw [← Option.some.inj hva]
        exact .inr (by bv_omega)
      · cases hva
  · rintro (h | h)
    · exact ⟨pa, if_pos h⟩
    · refine ⟨pa - 0xe00000 + 0x400000, ?_⟩
      have hback : pa - 0xe00000 + 0x400000 - 0x400000 + 0xe00000 = pa := by bv_omega
      simp only [userMap]
      rw [if_neg (by bv_omega), if_pos (by bv_omega), hback]

end UserMap

theorem TablesOk.isolated {m : Mem} (h : TablesOk m) : Isolated m where
  kernel _ hdir _ hva := walk_kernel h hva hdir
  task i _ := userTranslate_pgdOf h i
  shared pa := by
    simp only [UserReachable, userTranslate_pgdOf h, exists_userMap_zero, exists_userMap_one]
    omega
  supervisor i pa hreach := by
    obtain ⟨va, hva⟩ := hreach
    rw [userTranslate_pgdOf h] at hva
    exact Machine.userMap_ge hva

/-! ## Where events write -/

namespace Machine

variable {img : Image} {s s' : Machine} {cur : Option (Fin 2)}

/-- An event changes the stack its handler runs on, or what the running task sees. -/
theorem Effect.mem_changed {e : Event} (he : Effect img s cur e s') (h : Inv img s cur) {b : Word}
    (hb : s'.mem b ≠ s.mem b) :
    StackArea s.frameTop b ∨ ∃ i va, cur = some i ∧ userMap i va = some b := by
  by_contra hnot
  obtain ⟨harea, huser⟩ := not_or.mp hnot
  refine hb ?_
  cases he with
  | @user u i mem hcur hcs hss hmem =>
    subst hcur
    have hm : UserMode s i := h.mode
    rw [hm.cr3] at hmem
    by_contra hne
    obtain ⟨va, hva⟩ := (userStores_spec h.kernel.tables hmem).2 b hne
    exact huser ⟨i, va, rfl, hva⟩
  | clockIrq hfree σ => exact clockMem_area (s := s.withPics (servicing s.pics 0)) harea
  | clockInt hcur σ => exact clockMem_area (s := s.afterInt) harea
  | syscall hcur σ hread => exact syscallDone_area (s := s.afterInt) harea
  | device hn hfree σ => exact returned_area (s := s.withPics _) harea
  | nmi hcur σ => exact returned_area (s := s.withCr2 _) harea
  | portOut hcur hok σ => rw [outs_eq]
  | portIn hcur hok hreads σ => rfl

/-- No event writes to a page table. -/
theorem Effect.tables_eq {e : Event} (he : Effect img s cur e s') (h : Inv img s cur) {b : Word}
    (hb : Within tablesBase tablesSize b) : s'.mem b = s.mem b := by
  by_contra hne
  obtain harea | ⟨i, va, -, hva⟩ := he.mem_changed h hne
  · exact h.mode.kernelTop.sp.not_tables harea hb
  · exact not_tables_of_kernelEnd_le (userMap_ge hva) hb

theorem tables_eq_of_run {es : List Event} (h : Inv img s cur) (hspare : ∀ e ∈ es, SparesPics e)
    (hrun : Lts.run (step img) s es = some s') {b : Word} (hb : Within tablesBase tablesSize b) :
    s'.mem b = s.mem b := by
  induction es generalizing s cur with
  | nil => rw [Lts.run_nil.mp hrun]
  | cons e es ih =>
    obtain ⟨u, hstep, hrest⟩ := Lts.run_cons.mp hrun
    have heff := effect_of_step h hstep
    have hu := heff.inv h (hspare e (List.mem_cons_self ..))
    rw [ih hu (fun e' he' => hspare e' (List.mem_cons_of_mem _ he')) hrest, heff.tables_eq h hb]

/-- `config_pgds` isolates the address spaces, and no run from the boot changes that, nor
any byte of a page table. -/
theorem isolated_of_run (img : Image) :
    (∀ m flags, Isolated (configPgdsTables m flags)) ∧
      ∀ s₀ s es, Booted img s₀ → (∀ e ∈ es, SparesPics e) →
        Lts.run (step img) s₀ es = some s →
        Isolated s.mem ∧ ∀ b, Within tablesBase tablesSize b → s.mem b = s₀.mem b := by
  refine ⟨fun m flags => (tablesOk_configPgdsTables m flags).isolated, ?_⟩
  intro s₀ s es hboot hspare hrun
  have hinv := hboot.inv_run hspare hrun
  exact ⟨hinv.kernel.tables.isolated, fun b hb => tables_eq_of_run hboot.inv hspare hrun hb⟩

theorem isolated_sampleTask : Isolated sampleTask.mem :=
  ((isolated_of_run sampleImage).2 sample sampleTask [.irq 0 sampleScratch] booted_sample
    (by simp [SparesPics]) run_sampleTask).1

end Machine

end SecOS
