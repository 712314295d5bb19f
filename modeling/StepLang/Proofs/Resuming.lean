import StepLang.Proofs.Running

/-!
# Running in slices

A run that its budget has cut short can be taken up again where it stopped. The budget is looked at before
every step and changes nothing, so the steps are the same with any budget, and a wider one only takes more
of them. A run that comes to its end within a budget is the run without a budget.
-/

namespace StepLang

namespace Machine

theorem exhausted_iff {m : Machine} {budget : Int64} :
    m.exhausted budget = true ↔ 0 < budget.toInt ∧ budget.toInt ≤ m.steps.toInt := by
  simp only [exhausted, Bool.and_eq_true, decide_eq_true_eq, Int64.lt_iff_toInt_lt, Int64.le_iff_toInt_le,
    Int64.toInt_zero]

/-- Where the wider budget is spent, so is the other. -/
def Wider (wider budget : Int64) : Prop := ∀ m : Machine, m.exhausted wider = true → m.exhausted budget = true

theorem wider_of_nonpos {wider : Int64} (h : wider.toInt ≤ 0) (budget : Int64) : Wider wider budget := by
  intro m hspent
  have hpos := (exhausted_iff.mp hspent).1
  omega

theorem wider_zero (budget : Int64) : Wider 0 budget := wider_of_nonpos (by decide) budget

theorem wider_of_le {wider budget : Int64} (hpos : 0 < budget.toInt) (hle : budget.toInt ≤ wider.toInt) :
    Wider wider budget := by
  intro m hspent
  have hsteps := (exhausted_iff.mp hspent).2
  exact exhausted_iff.mpr ⟨hpos, by omega⟩

theorem Wider.not_exhausted {wider budget : Int64} (h : Wider wider budget) {m : Machine}
    (hbudget : m.exhausted budget = false) : m.exhausted wider = false := by
  rw [Bool.eq_false_iff] at hbudget ⊢
  exact fun hspent => hbudget (h m hspent)

theorem limit_ne_step {m after : Machine} {budget : Int64} {rip : Int} :
    m.step ≠ (after, .error (.limit budget rip)) := by
  intro h
  by_cases hhalted : m.halted = true
  · rw [step_halted hhalted, Prod.mk.injEq] at h
    cases h.2
  rcases step_cases (Bool.eq_false_iff.mpr hhalted) with
    ⟨cause, consumed, -, hstep⟩ | ⟨i, bytes, back, -, -, hstep⟩
  · rw [hstep, Prod.mk.injEq] at h
    cases h.2
  · rw [hstep, Prod.mk.injEq] at h
    cases h.2

theorem steps_of_step {m after : Machine} {x : Executed} (h : m.step = (after, .ok x)) :
    after.steps = m.steps + 1 := by
  obtain ⟨i, back, -, -, -, rfl⟩ := step_executed h
  rw [steps_execute]

namespace Runs

variable {budget wider : Int64} {m last : Machine} {log : List Executed} {result : Except RunError Unit}

theorem runUntil_eq (h : Runs budget m log last result) : m.runUntil budget = ⟨last, log, result⟩ :=
  h.runWith_eq []

theorem ne_limit (h : Runs budget m log last result) (hbudget : budget.toInt ≤ 0)
    (named : Int64) (rip : Int) :
    result ≠ .error (.limit named rip) := by
  induction h with
  | halted _ => simp
  | limit _ hspent =>
    have hpos := (exhausted_iff.mp hspent).1
    omega
  | fault _ _ hstep =>
    rintro ⟨rfl⟩
    exact limit_ne_step hstep
  | next _ _ _ _ ih => exact ih

theorem widen (h : Runs budget m log last result) (hwider : Wider wider budget)
    (hresult : ∀ named rip, result ≠ .error (.limit named rip)) : Runs wider m log last result := by
  induction h with
  | halted hhalted => exact .halted hhalted
  | limit _ _ => exact absurd rfl (hresult _ _)
  | fault hrun hbudget hstep => exact .fault hrun (hwider.not_exhausted hbudget) hstep
  | next hrun hbudget hstep _ ih => exact .next hrun (hwider.not_exhausted hbudget) hstep (ih hresult)

/-- A run that was cut short and what follows it make up the run with the wider budget. -/
theorem resume {final : Machine} {more : List Executed} {outcome : Except RunError Unit}
    {named : Int64} {rip : Int}
    (h : Runs budget m log last result) (hwider : Wider wider budget)
    (hresult : result = .error (.limit named rip))
    (rest : Runs wider last more final outcome) : Runs wider m (log ++ more) final outcome := by
  induction h with
  | halted _ => cases hresult
  | limit _ _ => exact rest
  | fault _ _ hstep =>
    cases hresult
    exact absurd hstep limit_ne_step
  | next hrun hbudget hstep _ ih => exact .next hrun (hwider.not_exhausted hbudget) hstep (ih hresult rest)

theorem steps_le (h : Runs budget m log last result) (hpos : 0 < budget.toInt) :
    last.steps.toInt ≤ max budget.toInt m.steps.toInt := by
  induction h with
  | halted _ => exact Int.le_max_right _ _
  | limit _ _ => exact Int.le_max_right _ _
  | fault hrun _ hstep =>
    obtain ⟨consumed, -, rfl⟩ := step_error hrun hstep
    exact Int.le_max_right _ _
  | @next m after last x log result hrun hbudget hstep rest ih =>
    have hbelow : m.steps.toInt < budget.toInt := by
      have hnot := mt exhausted_iff.mpr (Bool.eq_false_iff.mp hbudget)
      omega
    have hlo := Int64.le_toInt m.steps
    have hhi := Int64.toInt_lt budget
    have hsteps : after.steps.toInt = m.steps.toInt + 1 := by
      rw [steps_of_step hstep, Int64.toInt_add]
      exact Int.bmod_eq_of_le_mul_two (by simp; omega) (by simp; omega)
    rw [hsteps] at ih
    omega

end Runs

theorem runUntil_of_nonpos {budget : Int64} (h : budget.toInt ≤ 0) (m : Machine) :
    m.runUntil budget = m.run := by
  have hruns := m.runs_runUntil 0
  exact (hruns.widen (wider_of_nonpos h 0) (hruns.ne_limit (Int.le_refl 0))).runUntil_eq

/-- The budget is spent before the run comes to its end. -/
def Spends (m : Machine) (budget : Int64) : Prop :=
  ∃ named rip, (m.runUntil budget).result = .error (.limit named rip)

theorem runUntil_eq_of_not_spends {m : Machine} {budget wider : Int64} (h : ¬ m.Spends budget)
    (hwider : Wider wider budget) : m.runUntil budget = m.runUntil wider := by
  have hresult : ∀ named rip, (m.runUntil budget).result ≠ .error (.limit named rip) :=
    fun named rip hlimit => h ⟨named, rip, hlimit⟩
  exact ((m.runs_runUntil budget).widen hwider hresult).runUntil_eq.symm

theorem run_of_spends {m : Machine} {budget : Int64} (h : m.Spends budget) :
    m.run = ⟨(m.runUntil budget).machine.run.machine,
      (m.runUntil budget).log ++ (m.runUntil budget).machine.run.log,
      (m.runUntil budget).machine.run.result⟩ := by
  obtain ⟨named, rip, hlimit⟩ := h
  have hrest := (m.runUntil budget).machine.runs_runUntil 0
  exact ((m.runs_runUntil budget).resume (wider_zero budget) hlimit hrest).runUntil_eq

end Machine

/-- A run that is cut short by its budget and then taken up again without one ends as the run without a
budget from the start, in the same state and with the same instructions executed; a run that is not cut
short is that run. The counter ends at no more than the budget, unless it was above it before. Where a
budget is spent every smaller one is. -/
theorem runUntil_slices (m : Machine) (budget : Int64) :
    (m.Spends budget → ∀ unbounded : Int64, unbounded ≤ 0 →
      ∃ more, (m.runUntil budget).machine.runUntil unbounded = ⟨m.run.machine, more, m.run.result⟩ ∧
        (m.runUntil budget).log ++ more = m.run.log) ∧
    (¬ m.Spends budget → m.runUntil budget = m.run) ∧
    (0 < budget → (m.runUntil budget).machine.steps.toInt ≤ max budget.toInt m.steps.toInt) ∧
    (m.Spends budget → ∀ smaller : Int64, 0 < smaller → smaller ≤ budget → m.Spends smaller) := by
  refine ⟨?_, ?_, ?_, ?_⟩
  · intro hspends unbounded hnonpos
    rw [Int64.le_iff_toInt_le, Int64.toInt_zero] at hnonpos
    refine ⟨(m.runUntil budget).machine.run.log, ?_, ?_⟩
    · rw [Machine.runUntil_of_nonpos hnonpos, Machine.run_of_spends hspends]
    · rw [Machine.run_of_spends hspends]
  · intro hspends
    exact Machine.runUntil_eq_of_not_spends hspends (Machine.wider_zero budget)
  · intro hpos
    rw [Int64.lt_iff_toInt_lt, Int64.toInt_zero] at hpos
    exact (m.runs_runUntil budget).steps_le hpos
  · intro hspends smaller hpos hle
    rw [Int64.lt_iff_toInt_lt, Int64.toInt_zero] at hpos
    rw [Int64.le_iff_toInt_le] at hle
    by_cases hsmaller : m.Spends smaller
    · exact hsmaller
    · rw [Machine.Spends,
        ← Machine.runUntil_eq_of_not_spends hsmaller (Machine.wider_of_le hpos hle)] at hspends
      exact hspends

/-- A budget that is spent right before the byte that is no instruction, a smaller one, and one that reaches
it. -/
theorem runUntil_slices_fault :
    ∃ m more, Machine.initial.load [0x90, 0x90, 0x06] 0 = .ok m ∧ m.Spends 2 ∧ m.Spends 1 ∧
      (m.runUntil 2).machine.steps.toInt ≤ 2 ∧
      (m.runUntil 2).machine.runUntil (-7) = ⟨m.run.machine, more, m.run.result⟩ ∧
      (m.runUntil 2).log ++ more = m.run.log ∧ m.runUntil 3 = m.run ∧
      m.run.result = .error (.fault ⟨2, 3, 3, .opcode 0x06⟩) := by
  obtain ⟨m, hload⟩ : ∃ m, Machine.initial.load [0x90, 0x90, 0x06] 0 = .ok m := ⟨_, rfl⟩
  obtain ⟨htwo, hthree⟩ : (m.runUntil 2).result = .error (.limit 2 2) ∧
      (m.runUntil 3).result = .error (.fault ⟨2, 3, 3, .opcode 0x06⟩) := by
    cases hload
    rw [(Machine.Runs.next rfl rfl rfl (.next rfl rfl rfl (.limit rfl rfl))).runUntil_eq,
      (Machine.Runs.next rfl rfl rfl (.next rfl rfl rfl (.fault rfl rfl rfl))).runUntil_eq]
    exact ⟨rfl, rfl⟩
  have hspends : m.Spends 2 := ⟨2, 2, htwo⟩
  have hends : ¬ m.Spends 3 := by
    rintro ⟨named, rip, hlimit⟩
    rw [hthree] at hlimit
    cases hlimit
  obtain ⟨hresume, -, hsteps, hsmaller⟩ := runUntil_slices m 2
  obtain ⟨more, hrest, hlog⟩ := hresume hspends (-7) (by decide)
  have hrun := (runUntil_slices m 3).2.1 hends
  have hbound := hsteps (by decide)
  refine ⟨m, more, hload, hspends, hsmaller hspends 1 (by decide) (by decide), ?_, hrest, hlog, hrun, ?_⟩
  · cases hload
    exact hbound
  · rw [← hrun]
    exact hthree

end StepLang
