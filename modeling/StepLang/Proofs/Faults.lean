import StepLang.Proofs.Fetching

/-!
# Faults are final

A step fetches its instruction byte by byte and writes behind the last byte. So a step that fails moves the
instruction pointer over the bytes that it read, halts the machine, and changes nothing else. A machine that
a fault or a return has halted answers every call as it is, until code is loaded again.
-/

namespace StepLang

namespace Machine

/-- What is asked of a machine. -/
inductive Call where
  | step
  | run
  | runUntil (budget : Int64)
  | load (code : List UInt8) (entry : Int)

/-- The call loads code. -/
def Call.Loads : Call → Prop
  | load code entry => 0 ≤ entry ∧ entry < code.length
  | _ => False

/-- The machine after a call, and the instructions that the call records. -/
def call (m : Machine) : Call → Machine × List Executed
  | .step =>
    match m.step with
    | (after, .ok x) => (after, [x])
    | (after, .error _) => (after, [])
  | .run => (m.run.machine, m.run.log)
  | .runUntil budget => ((m.runUntil budget).machine, (m.runUntil budget).log)
  | .load code entry =>
    match m.load code entry with
    | .ok loaded => (loaded, [])
    | .error _ => (m, [])

def calls (m : Machine) : List Call → Machine × List Executed
  | [] => (m, [])
  | c :: cs =>
    let (after, log) := m.call c
    let (last, rest) := after.calls cs
    (last, log ++ rest)

theorem load_eq_error {m : Machine} {code : List UInt8} {entry : Int}
    (h : ¬ (0 ≤ entry ∧ entry < code.length)) :
    m.load code entry = .error ⟨entry, code.length⟩ := by
  rw [load, if_pos (by omega)]

theorem call_load_error {m : Machine} {code : List UInt8} {entry : Int}
    (h : ¬ (0 ≤ entry ∧ entry < code.length)) :
    m.call (.load code entry) = (m, []) := by
  rw [call, load_eq_error h]

theorem call_load_ok {m loaded : Machine} {code : List UInt8} {entry : Int}
    (h : m.load code entry = .ok loaded) :
    m.call (.load code entry) = (loaded, []) := by
  rw [call, h]

theorem call_step_error {m after : Machine} {e : RunError} (h : m.step = (after, .error e)) :
    m.call .step = (after, []) := by
  rw [call, h]

theorem call_halted {m : Machine} (h : m.halted = true) {c : Call} (hc : ¬ c.Loads) : m.call c = (m, []) := by
  have hrun : ∀ budget, m.runUntil budget = ⟨m, [], .ok ()⟩ := fun budget => runWith_halted [] h
  cases c with
  | step => exact call_step_error (step_halted h)
  | run => rw [call, run, hrun]
  | runUntil budget => rw [call, hrun]
  | load code entry => exact call_load_error hc

theorem calls_halted {m : Machine} (h : m.halted = true) {cs : List Call} (hcs : ∀ c ∈ cs, ¬ c.Loads)
    (rest : List Call) : m.calls (cs ++ rest) = m.calls rest := by
  induction cs with
  | nil => rfl
  | cons c cs ih =>
    obtain ⟨hc, hcs⟩ := List.forall_mem_cons.mp hcs
    rw [List.cons_append, calls, call_halted h hc]
    simp only [ih hcs, List.nil_append]

/-- Only code that is loaded changes the machine, and it finds the registers and the flags as they were. -/
structure Final (m : Machine) : Prop where
  unchanged : ∀ cs : List Call, (∀ c ∈ cs, ¬ c.Loads) → m.calls cs = (m, [])
  reloaded : ∀ cs : List Call, (∀ c ∈ cs, ¬ c.Loads) → ∀ (code : List UInt8) (entry : Int),
    0 ≤ entry ∧ entry < code.length → ∃ loaded, m.calls (cs ++ [.load code entry]) = (loaded, []) ∧
      loaded.regs = m.regs ∧ loaded.flags = m.flags ∧ loaded.memory = code.toArray ∧ loaded.rip = entry ∧
      loaded.halted = false ∧ loaded.steps = 0

theorem final_of_halted {m : Machine} (h : m.halted = true) : m.Final := by
  constructor
  · intro cs hcs
    have hcalls := calls_halted h hcs []
    rw [List.append_nil] at hcalls
    exact hcalls
  · intro cs hcs code entry hentry
    refine ⟨{ m with memory := code.toArray, rip := entry, halted := false, steps := 0 }, ?_, rfl,
      rfl, rfl, rfl, rfl, rfl⟩
    rw [calls_halted h hcs, calls, call_load_ok (load_eq_ok_iff.mpr ⟨hentry, rfl⟩)]
    rfl

/-- The machine is halted behind what was read, and is otherwise as before. -/
structure FaultsAs (m after : Machine) : Prop where
  regs : after.regs = m.regs
  flags : after.flags = m.flags
  memory : after.memory = m.memory
  steps : after.steps = m.steps
  halted : after.halted = true
  forward : m.rip ≤ after.rip
  inside : after.rip ≤ max m.rip m.memory.size

theorem faultsAs_of_step {m after : Machine} {e : RunError} (hrun : m.halted = false)
    (h : m.step = (after, .error e)) : m.FaultsAs after := by
  obtain ⟨consumed, hle, rfl⟩ := step_error hrun h
  rw [ahead_length] at hle
  refine ⟨rfl, rfl, rfl, rfl, rfl, ?_, ?_⟩
  · change m.rip ≤ m.rip + consumed
    omega
  · change m.rip + consumed ≤ max m.rip m.memory.size
    split at hle <;> omega

theorem Runs.halted_or_limit {budget : Int64} {m last : Machine} {log : List Executed}
    {result : Except RunError Unit}
    (h : Runs budget m log last result) : last.halted = true ∨ result = .error (.limit budget last.rip) := by
  induction h with
  | halted hhalted => exact .inl hhalted
  | limit _ _ => exact .inr rfl
  | fault hrun _ hstep => exact .inl (faultsAs_of_step hrun hstep).halted
  | next _ _ _ _ ih => exact ih

end Machine

/-- A step is one that fetches byte by byte. A fault changes nothing but where the machine stands, and no
call changes a machine that a fault or a return has halted before code is loaded. A load that fails changes
nothing, and a run that is not cut short by its budget ends in a machine of this kind. -/
theorem faults_final (m : Machine) :
    m.step = m.fetchStep ∧
    (∀ (after : Machine) (e : RunError), m.halted = false → m.step = (after, .error e) →
      m.FaultsAs after ∧ m.call .step = (after, []) ∧ after.Final) ∧
    (m.halted = true → m.step = (m, .error .halted) ∧ m.Final) ∧
    (∀ (code : List UInt8) (entry : Int), ¬ (0 ≤ entry ∧ entry < code.length) →
      m.load code entry = .error ⟨entry, code.length⟩ ∧ m.call (.load code entry) = (m, [])) ∧
    (∀ (after : Machine) (x : Executed), m.step = (after, .ok x) →
      (after.halted = true ↔ x.code = [0xC3]) ∧ (x.code = [0xC3] → after.Final)) ∧
    ∀ budget : Int64, (m.runUntil budget).result = .error (.limit budget (m.runUntil budget).machine.rip) ∨
      (m.runUntil budget).machine.Final := by
  refine ⟨m.fetchStep_eq.symm, ?_, ?_, ?_, ?_, ?_⟩
  · intro after e hrun hstep
    have hfault := Machine.faultsAs_of_step hrun hstep
    exact ⟨hfault, Machine.call_step_error hstep, Machine.final_of_halted hfault.halted⟩
  · intro hhalted
    exact ⟨Machine.step_halted hhalted, Machine.final_of_halted hhalted⟩
  · intro code entry hentry
    exact ⟨Machine.load_eq_error hentry, Machine.call_load_error hentry⟩
  · intro after x hstep
    have hiff := Machine.halted_of_step hstep
    exact ⟨hiff, fun hret => Machine.final_of_halted (hiff.mpr hret)⟩
  · intro budget
    rcases (Machine.runs_runUntil m budget).halted_or_limit with hhalted | hlimit
    · exact .inr (Machine.final_of_halted hhalted)
    · exact .inl hlimit

/-- An immediate that breaks off stops the machine behind the operands, for good; then a return, loaded
after it. -/
theorem faults_final_truncated :
    ∃ m after e, Machine.initial.load [0x48, 0x81, 0xC0, 0x01, 0x02] 0 = .ok m ∧ m.halted = false ∧
      m.step = (after, .error e) ∧ m.FaultsAs after ∧ after.rip = 3 ∧
      after.calls [.run, .load [0xC3] 1, .step, .runUntil 5] = (after, []) ∧
      ∃ loaded returned x, after.load [0xC3] 0 = .ok loaded ∧ loaded.step = (returned, .ok x) ∧
      x.code = [0xC3] ∧
        returned.calls [.step, .load [] (-1), .run] = (returned, []) := by
  obtain ⟨m, hload⟩ : ∃ m, Machine.initial.load [0x48, 0x81, 0xC0, 0x01, 0x02] 0 = .ok m := ⟨_, rfl⟩
  obtain ⟨after, e, hrun, hstep, hrip⟩ : ∃ after e, m.halted = false ∧ m.step = (after, .error e) ∧
    after.rip = 3 := by
    cases hload
    exact ⟨_, _, rfl, rfl, rfl⟩
  obtain ⟨hfault, -, hfinal⟩ := (faults_final m).2.1 after e hrun hstep
  obtain ⟨loaded, hloaded⟩ : ∃ loaded, after.load [0xC3] 0 = .ok loaded := ⟨_, rfl⟩
  obtain ⟨returned, x, hreturn, hcode⟩ : ∃ returned x, loaded.step = (returned, .ok x) ∧ x.code = [0xC3] := by
    cases hloaded
    exact ⟨_, _, rfl, rfl⟩
  have hreturned := ((faults_final loaded).2.2.2.2.1 returned x hreturn).2 hcode
  refine ⟨m, after, e, hload, hrun, hstep, hfault, hrip, hfinal.unchanged _ ?_, loaded, returned, x,
    hloaded, hreturn, hcode, hreturned.unchanged _ ?_⟩
  · simp [Machine.Call.Loads]
  · simp [Machine.Call.Loads]

end StepLang
