import StepLang.Proofs.Decoding
import StepLang.Proofs.Stepping

/-!
# Every run ends

A step that succeeds executes the instruction that the next bytes of the memory form, and moves the
instruction pointer behind them. It stays inside the memory and never comes back, so a run is a finite
sequence of such steps, and it ends without an error exactly when the last of them was a return.
-/

namespace StepLang

namespace Machine

/-- The bytes between two offsets, where both are offsets of the memory and in order. -/
def slice? (m : Machine) (start stop : Int) : Option (List UInt8) :=
  if 0 ≤ start ∧ start ≤ stop ∧ stop ≤ m.memory.size then
    some ((m.memory.toList.drop start.toNat).take (stop - start).toNat)
  else none

theorem At.slice? {m : Machine} {front bytes back : List UInt8} (h : m.At (front ++ bytes ++ back)) :
    m.slice? (m.rip + front.length) (m.rip + front.length + bytes.length) = some bytes := by
  obtain ⟨before, hmemory, hrip⟩ := h.inside
  have hsize : m.memory.size = before.length + (front.length + bytes.length + back.length) := by
    rw [← Array.length_toList, hmemory]
    simp only [List.length_append]
  have hstart : (m.rip + front.length).toNat = (before ++ front).length := by
    rw [List.length_append]
    omega
  have hcount : (m.rip + front.length + bytes.length - (m.rip + front.length)).toNat = bytes.length := by
    omega
  rw [Machine.slice?, if_pos (by omega), hstart, hcount, hmemory, ← List.append_assoc, ← List.append_assoc,
    List.append_assoc (before ++ front), List.drop_left, List.take_left]

theorem at_of_ahead {m : Machine} {bytes back : List UInt8} (hrun : m.halted = false)
    (h : m.ahead = bytes ++ back) (hne : bytes ≠ []) : ∃ rest, m.At (bytes ++ rest) := by
  have hpos := List.length_pos_iff.mpr hne
  have hlength := congrArg List.length h
  rw [ahead_length, List.length_append] at hlength
  by_cases hneg : m.rip < 0
  · rw [if_pos hneg] at hlength
    omega
  rw [if_neg hneg] at hlength
  rw [ahead, if_neg hneg, Array.toList_extract, List.extract] at h
  obtain ⟨after, hafter⟩ : ∃ after, m.memory.toList.drop m.rip.toNat = bytes ++ back ++ after :=
    ⟨_, by rw [← h, List.take_append_drop]⟩
  refine ⟨back ++ after, hrun, m.memory.toList.take m.rip.toNat, ?_, ?_⟩
  · rw [← List.append_assoc bytes, ← hafter, List.take_append_drop]
  · rw [List.length_take, Array.length_toList]
    omega

theorem step_halted {m : Machine} (h : m.halted = true) : m.step = (m, .error .halted) := by
  rw [step, if_pos h]

/-- All that a step can do to a machine that runs. -/
theorem step_cases {m : Machine} (hrun : m.halted = false) :
    (∃ (cause : DecodeFault) (consumed : Nat), consumed ≤ m.ahead.length ∧
      m.step = ({ m with rip := m.rip + consumed, halted := true },
        .error (.fault ⟨m.rip, m.rip + consumed, m.memory.size, cause⟩))) ∨
      ∃ i bytes back, Instruction.Forms bytes i ∧ m.At (bytes ++ back) ∧
        m.step =
          let after := { m with rip := m.rip + bytes.length, steps := m.steps + 1 }.execute i
          (after, .ok ⟨m.rip, bytes, after.rax⟩) := by
  unfold step
  rw [if_neg (by simp [hrun])]
  cases hdecode : Instruction.decode m.ahead with
  | fault cause consumed =>
    have hwithin := Decoded.decode_within m.ahead
    rw [hdecode] at hwithin
    exact .inl ⟨cause, consumed, hwithin, rfl⟩
  | instruction i width =>
    obtain ⟨bytes, back, hahead, rfl, hforms⟩ := Instruction.forms_of_decode hdecode
    obtain ⟨rest, hat⟩ := at_of_ahead hrun hahead (List.length_pos_iff.mp hforms.length.1)
    refine .inr ⟨i, bytes, rest, hforms, hat, ?_⟩
    simp only [hahead, List.take_left]

theorem At.step_forms {m : Machine} {i : Instruction} {bytes rest : List UInt8} (h : m.At (bytes ++ rest))
    (hforms : Instruction.Forms bytes i) :
    m.step =
      let after := { m with rip := m.rip + bytes.length, steps := m.steps + 1 }.execute i
      (after, .ok ⟨m.rip, bytes, after.rax⟩) := by
  have hahead : m.ahead = bytes ++ rest.take (Instruction.longest - bytes.length) := by
    rw [ahead_eq h, List.take_append, List.take_of_length_le hforms.length.2]
  have hdecode := hforms.decode_append (rest.take (Instruction.longest - bytes.length))
  rw [← hahead] at hdecode
  unfold step
  rw [if_neg (by simp [h.running]), hdecode]
  simp only [hahead, List.take_left]

theorem step_error {m after : Machine} {e : RunError} (hrun : m.halted = false)
    (h : m.step = (after, .error e)) :
    ∃ consumed : Nat, consumed ≤ m.ahead.length ∧
      after = { m with rip := m.rip + consumed, halted := true } := by
  rcases step_cases hrun with ⟨cause, consumed, hle, hstep⟩ | ⟨i, bytes, back, -, -, hstep⟩
  · rw [hstep, Prod.mk.injEq] at h
    exact ⟨consumed, hle, h.1.symm⟩
  · rw [hstep, Prod.mk.injEq] at h
    cases h.2

theorem step_executed {m after : Machine} {x : Executed} (h : m.step = (after, .ok x)) :
    ∃ i back, Instruction.Forms x.code i ∧ m.At (x.code ++ back) ∧ x.offset = m.rip ∧
      after = { m with rip := m.rip + x.code.length, steps := m.steps + 1 }.execute i := by
  by_cases hhalted : m.halted = true
  · rw [step_halted hhalted, Prod.mk.injEq] at h
    cases h.2
  rcases step_cases (Bool.eq_false_iff.mpr hhalted) with
    ⟨cause, consumed, -, hstep⟩ | ⟨i, bytes, back, hforms, hat, hstep⟩
  · rw [hstep, Prod.mk.injEq] at h
    cases h.2
  · rw [hstep] at h
    cases h
    exact ⟨i, back, hforms, hat, rfl, rfl⟩

theorem halted_of_step {m after : Machine} {x : Executed} (h : m.step = (after, .ok x)) :
    after.halted = true ↔ x.code = [0xC3] := by
  obtain ⟨i, back, hforms, hat, -, rfl⟩ := step_executed h
  rw [halted_execute, hat.running, Bool.false_or, decide_eq_true_iff, hforms.eq_ret_iff]

theorem place_of_return {m after : Machine} {x : Executed} (h : m.step = (after, .ok x))
    (hret : x.code = [0xC3]) :
    ∃ n : Nat, x.offset = n ∧ after.rip = n + 1 ∧ after.memory[n]? = some 0xC3 := by
  obtain ⟨i, back, -, hat, hoffset, rfl⟩ := step_executed h
  obtain ⟨front, hmemory, hrip⟩ := hat.inside
  refine ⟨front.length, hoffset.trans hrip, ?_, ?_⟩
  · rw [rip_execute, hret, hrip]
    rfl
  · rw [memory_execute, ← Array.getElem?_toList, hmemory, hret,
      List.getElem?_append_right (Nat.le_refl _), Nat.sub_self]
    rfl

theorem step_wellFounded : WellFounded fun after m : Machine => ∃ x, m.step = (after, .ok x) := by
  apply Subrelation.wf (r := (measure fun m : Machine => m.memory.size - m.rip.toNat).rel)
  · intro after m hstep
    obtain ⟨x, h⟩ := hstep
    obtain ⟨hmemory, hnonneg, hlt, hle⟩ := step_ok h
    change after.memory.size - after.rip.toNat < m.memory.size - m.rip.toNat
    rw [hmemory]
    omega
  · exact (measure _).wf

/-- What a run does, one step after the other. -/
inductive Runs (budget : Int64) : Machine → List Executed → Machine → Except RunError Unit → Prop where
  | halted {m : Machine} (hhalted : m.halted = true) : Runs budget m [] m (.ok ())
  | limit {m : Machine} (hrun : m.halted = false) (hspent : m.exhausted budget = true) :
      Runs budget m [] m (.error (.limit budget m.rip))
  | fault {m after : Machine} {e : RunError} (hrun : m.halted = false) (hbudget : m.exhausted budget = false)
      (hstep : m.step = (after, .error e)) : Runs budget m [] after (.error e)
  | next {m after last : Machine} {x : Executed} {log : List Executed} {result : Except RunError Unit}
      (hrun : m.halted = false) (hbudget : m.exhausted budget = false) (hstep : m.step = (after, .ok x))
      (rest : Runs budget after log last result) : Runs budget m (x :: log) last result

theorem exists_runs (budget : Int64) (m : Machine) : ∃ log last result, Runs budget m log last result := by
  induction m using step_wellFounded.induction with
  | _ m ih =>
    cases hrun : m.halted with
    | true => exact ⟨[], m, _, .halted hrun⟩
    | false =>
      cases hbudget : m.exhausted budget with
      | true => exact ⟨[], m, _, .limit hrun hbudget⟩
      | false =>
        cases hstep : m.step with
        | mk after result =>
          cases result with
          | error e => exact ⟨[], after, _, .fault hrun hbudget hstep⟩
          | ok x =>
            obtain ⟨log, last, result, hrest⟩ := ih after ⟨x, hstep⟩
            exact ⟨x :: log, last, result, .next hrun hbudget hstep hrest⟩

namespace Runs

variable {budget : Int64} {m last : Machine} {log : List Executed} {result : Except RunError Unit}

theorem runWith_eq (h : Runs budget m log last result) (before : List Executed) :
    m.runWith budget before = ⟨last, before.reverse ++ log, result⟩ := by
  induction h generalizing before with
  | halted hhalted => rw [runWith_halted before hhalted, List.append_nil]
  | limit hrun hspent => rw [runWith_exhausted before hrun hspent, List.append_nil]
  | fault hrun hbudget hstep => rw [runWith_error before hrun hbudget hstep, List.append_nil]
  | @next m after last x log result hrun hbudget hstep rest ih =>
    rw [runWith_ok before hrun hbudget hstep, ih (x :: before), List.reverse_cons, List.append_assoc]
    rfl

theorem of_halted (h : Runs budget m log last result) (hhalted : m.halted = true) :
    last = m ∧ log = [] ∧ result = .ok () := by
  have hending := h.runWith_eq []
  rw [runWith_halted [] hhalted, Ending.mk.injEq] at hending
  obtain ⟨hlast, hlog, hresult⟩ := hending
  exact ⟨hlast.symm, hlog.symm, hresult.symm⟩

theorem memory_eq (h : Runs budget m log last result) : last.memory = m.memory := by
  induction h with
  | halted _ => rfl
  | limit _ _ => rfl
  | fault hrun _ hstep =>
    obtain ⟨consumed, -, rfl⟩ := step_error hrun hstep
    rfl
  | next _ _ hstep _ ih => rw [ih, (step_ok hstep).1]

theorem length_le (h : Runs budget m log last result) :
    (log.length : Int) ≤ max 0 (m.memory.size - m.rip) := by
  induction h with
  | halted _ => exact Int.le_max_left _ _
  | limit _ _ => exact Int.le_max_left _ _
  | fault _ _ _ => exact Int.le_max_left _ _
  | next _ _ hstep _ ih =>
    obtain ⟨hmemory, hnonneg, hlt, hle⟩ := step_ok hstep
    rw [hmemory] at ih
    rw [List.length_cons]
    omega

/-- A run of a machine that was not halted ends well exactly by executing a return, behind which it stops. -/
theorem returned_or (h : Runs budget m log last result) (hrun : m.halted = false) :
    (result = .ok () ∧ ∃ (x : Executed) (n : Nat), log.getLast? = some x ∧ x.code = [0xC3] ∧ x.offset = n ∧
      last.rip = n + 1 ∧ last.memory[n]? = some 0xC3) ∨
      (result ≠ .ok () ∧ ∀ x, log.getLast? = some x → x.code ≠ [0xC3]) := by
  induction h with
  | halted hhalted =>
    rw [hrun] at hhalted
    cases hhalted
  | limit _ _ => exact .inr ⟨by simp, by simp⟩
  | fault _ _ _ => exact .inr ⟨by simp, by simp⟩
  | @next m after last x log result hstill hbudget hstep rest ih =>
    by_cases hret : x.code = [0xC3]
    · obtain ⟨rfl, rfl, rfl⟩ := rest.of_halted ((halted_of_step hstep).mpr hret)
      obtain ⟨n, hplace⟩ := place_of_return hstep hret
      exact .inl ⟨rfl, x, n, rfl, hret, hplace⟩
    · have hafter : after.halted = false := by
        rw [Bool.eq_false_iff, ne_eq, halted_of_step hstep]
        exact hret
      rcases ih hafter with ⟨hok, y, n, hlast, hy⟩ | ⟨hnot, hlast⟩
      · refine .inl ⟨hok, y, n, ?_, hy⟩
        rw [List.getLast?_cons, hlast]
        rfl
      · refine .inr ⟨hnot, ?_⟩
        intro y hy
        cases log with
        | nil =>
          cases hy
          exact hret
        | cons z log =>
          rw [List.getLast?_cons_cons] at hy
          exact hlast y hy

end Runs

theorem runs_runUntil (m : Machine) (budget : Int64) :
    Runs budget m (m.runUntil budget).log (m.runUntil budget).machine (m.runUntil budget).result := by
  obtain ⟨log, last, result, h⟩ := exists_runs budget m
  rw [runUntil, h.runWith_eq, List.reverse_nil, List.nil_append]
  exact h

theorem load_eq_ok_iff {m loaded : Machine} {code : List UInt8} {entry : Int} :
    m.load code entry = .ok loaded ↔ (0 ≤ entry ∧ entry < code.length) ∧
      loaded = { m with memory := code.toArray, rip := entry, halted := false, steps := 0 } := by
  unfold load
  split
  · rename_i hout
    constructor
    · intro h
      cases h
    · rintro ⟨hin, -⟩
      omega
  · rename_i hin
    rw [Except.ok.injEq]
    exact ⟨fun h => ⟨by omega, h.symm⟩, fun h => h.2.symm⟩

/-- A step stays inside the memory: it finds the bytes that it records there, and those of an immediate as
the last of them, and it moves behind them. -/
structure Advances (m after : Machine) (x : Executed) : Prop where
  start : 0 ≤ m.rip
  forward : m.rip < after.rip
  inside : after.rip ≤ m.memory.size
  short : after.rip - m.rip ≤ 10
  recorded : x.offset = m.rip ∧ m.slice? m.rip after.rip = some x.code
  executed : ∃ i, Instruction.Forms x.code i ∧
    after = { m with rip := after.rip, steps := m.steps + 1 }.execute i ∧
    ∀ v, i.immediate? = some v → ∃ imm : List UInt8, (imm.length = 1 ∨ imm.length = 4 ∨ imm.length = 8) ∧
      m.rip ≤ after.rip - imm.length ∧ m.slice? (after.rip - imm.length) after.rip = some imm ∧
      v = Encoding.ofImmediate imm

theorem advances_of_step {m after : Machine} {x : Executed} (h : m.step = (after, .ok x)) :
    m.Advances after x := by
  obtain ⟨-, hstart, hforward, hinside⟩ := step_ok h
  obtain ⟨i, back, hforms, hat, hoffset, hafter⟩ := step_executed h
  have hrip : after.rip = m.rip + x.code.length := by
    rw [hafter, rip_execute]
  have hlength : x.code.length ≤ 10 := hforms.length.2
  refine ⟨hstart, hforward, hinside, by omega, ⟨hoffset, ?_⟩, i, hforms, by rw [hrip]; exact hafter, ?_⟩
  · have hslice := @At.slice? m [] x.code back hat
    rw [List.length_nil, Int.natCast_zero, Int.add_zero] at hslice
    rw [hrip, hslice]
  · intro v hv
    obtain ⟨front, imm, hcode, hwidth, rfl⟩ := hforms.immediate hv
    rw [hcode] at hat
    have hstop : after.rip = m.rip + front.length + imm.length := by
      rw [hrip, hcode, List.length_append]
      omega
    refine ⟨imm, hwidth, by omega, ?_, rfl⟩
    rw [hstop, Int.add_sub_cancel, hat.slice?]

end Machine

/-- No sequence of steps that succeed goes on for ever, since each of them moves on inside the memory by one
to ten bytes. So every run ends. From an entry on it executes no more instructions than there are bytes, and
it ends without an error exactly when the last of them is the byte of a return, right before the instruction
pointer. -/
theorem run_ends :
    (∀ (m after : Machine) (x : Executed), m.step = (after, .ok x) → m.Advances after x) ∧
    (WellFounded fun after m : Machine => ∃ x, m.step = (after, .ok x)) ∧
    (∀ (m : Machine) (budget : Int64),
      m.Runs budget (m.runUntil budget).log (m.runUntil budget).machine (m.runUntil budget).result) ∧
    ∀ (m loaded : Machine) (code : List UInt8) (entry : Int), m.load code entry = .ok loaded →
      ∀ (budget : Int64) (ending : Machine.Ending), ending = loaded.runUntil budget →
        ending.machine.memory = code.toArray ∧ (ending.log.length : Int) ≤ code.length - entry ∧
        (ending.result = .ok () ↔ ∃ x, ending.log.getLast? = some x ∧ x.code = [0xC3]) ∧
        ∀ x, ending.log.getLast? = some x → x.code = [0xC3] →
          ∃ n : Nat, x.offset = n ∧ ending.machine.rip = n + 1 ∧ ending.machine.memory[n]? = some 0xC3 := by
  refine ⟨fun _ _ _ h => Machine.advances_of_step h, Machine.step_wellFounded, Machine.runs_runUntil, ?_⟩
  intro m loaded code entry hload budget ending hending
  obtain ⟨hentry, rfl⟩ := Machine.load_eq_ok_iff.mp hload
  have hruns :=
    Machine.runs_runUntil { m with memory := code.toArray, rip := entry, halted := false, steps := 0 } budget
  rw [← hending] at hruns
  refine ⟨hruns.memory_eq, ?_, ?_⟩
  · have hlength := hruns.length_le
    simp only [List.size_toArray] at hlength
    omega
  · rcases hruns.returned_or rfl with ⟨hok, x, n, hlast, hcode, hplace⟩ | ⟨hnot, hlast⟩
    · refine ⟨⟨fun _ => ⟨x, hlast, hcode⟩, fun _ => hok⟩, ?_⟩
      intro y hy _
      rw [hlast] at hy
      cases hy
      exact ⟨n, hplace⟩
    · refine ⟨⟨fun hok => absurd hok hnot, ?_⟩, ?_⟩
      · rintro ⟨x, hx, hcode⟩
        exact absurd hcode (hlast x hx)
      · intro x hx hcode
        exact absurd hcode (hlast x hx)

/-- The byte of a return inside an immediate is no return, although the run stops right behind it. -/
theorem run_ends_immediate :
    ∃ loaded after x, Machine.initial.load [0x48, 0x83, 0xC0, 0xC3] 0 = .ok loaded ∧
    loaded.step = (after, .ok x) ∧
      loaded.Advances after x ∧ (loaded.run.log.length : Int) ≤ 4 ∧ loaded.run.log.getLast? = some x ∧
      loaded.run.machine.rip = 4 ∧ loaded.run.machine.memory[3]? = some 0xC3 ∧
      loaded.run.result ≠ .ok () := by
  obtain ⟨loaded, hload⟩ : ∃ loaded, Machine.initial.load [0x48, 0x83, 0xC0, 0xC3] 0 = .ok loaded := ⟨_, rfl⟩
  obtain ⟨after, x, hstep⟩ : ∃ after x, loaded.step = (after, .ok x) := by
    cases hload
    exact ⟨_, _, rfl⟩
  obtain ⟨hrun, hrip, hbyte, hcode⟩ :
      loaded.run = ⟨{ after with halted := true }, [x], .error (.fault ⟨4, 4, 4, .outside⟩)⟩ ∧ after.rip = 4 ∧
        after.memory[3]? = some 0xC3 ∧ x.code ≠ [0xC3] := by
    cases hload
    cases hstep
    exact ⟨(Machine.Runs.next rfl rfl rfl (.fault rfl rfl rfl)).runWith_eq [], rfl, rfl, by decide⟩
  obtain ⟨-, hlength, hreturns, -⟩ := run_ends.2.2.2 _ loaded _ _ hload 0 _ rfl
  have hlast : loaded.run.log.getLast? = some x := by rw [hrun]; rfl
  refine ⟨loaded, after, x, hload, hstep, run_ends.1 _ _ _ hstep, hlength, hlast, by rw [hrun]; exact hrip,
    by rw [hrun]; exact hbyte, ?_⟩
  intro hok
  obtain ⟨y, hy, hret⟩ := hreturns.mp hok
  change loaded.run.log.getLast? = some y at hy
  rw [hlast] at hy
  cases hy
  exact hcode hret

end StepLang
