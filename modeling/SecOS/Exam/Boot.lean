-- SUMMARY: The configuration succeeds and leaves a state in which the invariant holds.
import SecOS.Exam.Steps

/-!
# Boot

`config` is one straight path. It can only fail where it turns paging on or loads a
page directory, and there the stack it runs on is mapped.
-/

namespace SecOS

open X86

namespace Machine

variable {img : Image} {σ : Scratch} {s s' : Machine} {cur : Option (Fin 2)} {i : Fin 2}

/-- The machine in the loop at the end of `config`. -/
def configured (img : Image) (s : Machine) : Machine where
  cpu := { s.cpu with
    cs := c0Sel, ss := d0Sel, ds := d3Sel, es := d3Sel, fs := d3Sel, gs := d3Sel
    cr0 := s.cpu.cr0 ||| cr0Pg, cr3 := pgdTask1, eflags := s.cpu.eflags ||| Eflags.intr
    shadow := false, eip := img.addr ⟨.idle, 0⟩ }
  mem := configPgdsTables s.mem s.cpu.eflags
  pics := picsReady
  gdt := examGdt img.tss
  idt := examIdt img
  tss := kernelTss (interruptStackTask1 + interruptStackSize)
  currentTaskIdx := s.currentTaskIdx
  tasks := examTasks img
  console := s.console ++ [⟨"pagination enabled\n", []⟩]
  ports := s.ports

/-- A stack pointer in the boot stack. -/
def OnBootStack (s : Machine) : Prop := 0x301000 ≤ s.cpu.esp.toNat ∧ s.cpu.esp.toNat ≤ 0x302010

theorem OnBootStack.stackMapped (h : OnBootStack s) (htables : TablesOk s.mem)
    (hdir : s.cpu.cr3 ∈ [pgd, pgdTask1, pgdTask2]) : s.stackMapped = true := by
  have htop : KernelTop s.cpu.esp := .inl h
  exact htop.sp.stackMapped htables hdir (by omega) le_rfl

theorem configPgds_eq (h : OnBootStack s) :
    s.configPgds = some { s with
      mem := configPgdsTables s.mem s.cpu.eflags
      cpu := { s.cpu with cr3 := pgd, cr0 := s.cpu.cr0 ||| cr0Pg }
      console := s.console ++ [⟨"pagination enabled\n", []⟩] } := by
  have hmapped : ({ s with
      mem := configPgdsTables s.mem s.cpu.eflags
      cpu := { s.cpu with cr3 := pgd, cr0 := s.cpu.cr0 ||| cr0Pg } } : Machine).stackMapped
        = true :=
    OnBootStack.stackMapped h (tablesOk_configPgdsTables _ _) (pgd_mem)
  exact if_pos hmapped

theorem setDataSegs_eq {sel : Sel} (h : s.gdt.dataOk 0 sel = true) :
    s.setDataSegs sel
      = some { s with cpu := { s.cpu with ds := sel, es := sel, fs := sel, gs := sel } } :=
  if_pos h

theorem setCr3_eq {dir : Word} (h : OnBootStack s) (htables : TablesOk s.mem)
    (hdir : dir ∈ [pgd, pgdTask1, pgdTask2]) :
    s.setCr3 dir = some { s with cpu := { s.cpu with cr3 := dir } } :=
  if_pos (OnBootStack.stackMapped (s := { s with cpu := { s.cpu with cr3 := dir } }) h htables hdir)

theorem config_eq (h : OnBootStack s) (htss : s.tss = Tss.zero)
    (hidt : s.idt = intrInit img.idtTrampoline) (hpics : s.pics = picsReady) :
    s.config img = some (s.configured img) := by
  have hpgds := configPgds_eq (s := s.configSegmentation img) h
  simp only [config, hpgds, Option.bind_eq_bind, Option.bind_some]
  rw [setDataSegs_eq]
  · rw [Option.bind_some, setCr3_eq]
    · simp only [Option.bind_some, configured, configInterrupt, configSegmentation, htss, hidt,
        hpics]
      rfl
    · exact h
    · exact tablesOk_configPgdsTables _ _
    · exact pgdOf_mem 0
  · exact dataOk_d3Sel img.tss 0

theorem start_eq (h : Entered s) : s.start img = some (s.configured img) :=
  config_eq (s := { s with pics := picInit s.pics, idt := intrInit img.idtTrampoline })
    ⟨h.esp_lo, h.esp_hi⟩ h.tss rfl (picInit_eq s.pics)

theorem inv_configured (h : Entered s) : Inv img (s.configured img) none where
  kernel :=
    { gdt := rfl
      idt := rfl
      tables := tablesOk_configPgdsTables s.mem s.cpu.eflags
      tss := rfl
      tasks := fun i => rfl
      saved := fun i hsaved => by
        match i with
        | 0 => cases hsaved
        | 1 => cases hsaved }
  pics := serviceable_picsReady
  mode :=
    { currentTaskIdx := h.currentTaskIdx
      cs := rfl
      eip := rfl
      flags := by
        have hintr : Eflags.intr &&& ~~~Eflags.status = Eflags.intr := by decide
        have hflags := h.eflags
        simp only [configured]
        rw [BitVec.and_comm, BitVec.and_or_distrib_left, BitVec.and_comm _ s.cpu.eflags, hflags,
          BitVec.and_comm, hintr]
        rfl
      esp_lo := h.esp_lo
      esp_hi := h.esp_hi
      shadow := rfl
      cr3 := rfl
      unsaved := fun i => by
        match i with
        | 0 => rfl
        | 1 => rfl }

theorem Booted.inv (h : Booted img s) : Inv img s none := by
  obtain ⟨s₀, hentered, hstart⟩ := h
  rw [start_eq hentered] at hstart
  exact Option.some.inj hstart ▸ inv_configured hentered

theorem Booted.pics (h : Booted img s) : s.pics = picsReady := by
  obtain ⟨s₀, hentered, hstart⟩ := h
  rw [start_eq hentered] at hstart
  exact Option.some.inj hstart ▸ rfl

theorem Booted.quiet (h : Booted img s) : Quiet s.pics := h.pics.symm ▸ quiet_picsReady

/-- The invariant in every state of a run from the boot. -/
theorem Booted.inv_run {es : List Event} (h : Booted img s) (hspare : ∀ e ∈ es, SparesPics e)
    (hrun : Lts.run (step img) s es = some s') : Inv img s' (es.foldl taskAfter none) :=
  h.inv.run hspare hrun

end Machine

end SecOS
