import StepLang.Proofs.Compilation
import StepLang.Proofs.Running

/-!
# Code on a used machine

Loading keeps the registers and flags of a machine. A straight piece of code changes only the registers that
its instructions name as destinations, so compiled code, which sets the accumulator before it reads it,
computes the same on a machine in any state and leaves all other registers alone.
-/

namespace StepLang

/-- The register that an instruction writes. -/
def Instruction.target? : Instruction → Option Register
  | ret => none
  | nop => none
  | mov dst _ => some dst
  | alu _ dst _ => some dst

namespace Registers

theorem set_of_ne (regs : Registers) {r q : Register} (h : q ≠ r) (v : Int64) : regs.set r v q = regs q := by
  rw [set, if_neg h]

theorem after_of_target_ne (regs : Registers) {i : Instruction} {r : Register} (h : i.target? ≠ some r) :
    regs.after i r = regs r := by
  have hne : ∀ dst, i.target? = some dst → r ≠ dst := by
    intro dst hdst heq
    exact h (by rw [hdst, heq])
  cases i with
  | ret => rfl
  | nop => rfl
  | mov dst src => exact set_of_ne regs (hne dst rfl) _
  | alu op dst src =>
    cases op with
    | add => exact set_of_ne regs (hne dst rfl) _
    | sub => exact set_of_ne regs (hne dst rfl) _

theorem foldl_of_target_ne {is : List Instruction} {r : Register} (h : ∀ i ∈ is, i.target? ≠ some r)
    (regs : Registers) : is.foldl after regs r = regs r := by
  induction is generalizing regs with
  | nil => rfl
  | cons i is ih =>
    obtain ⟨hi, his⟩ := List.forall_mem_cons.mp h
    rw [List.foldl_cons, ih his, after_of_target_ne regs hi]

end Registers

theorem Expr.target_instructions (e : Expr) (n : Int32) :
    ∀ i ∈ e.instructions n, i.target? = some Register.rax := by
  refine List.forall_mem_cons.mpr ⟨rfl, ?_⟩
  intro i hi
  obtain ⟨op, -, rfl⟩ := List.mem_map.mp hi
  cases op with
  | add1 => rfl
  | sub1 => rfl

namespace Machine

/-- The registers as signed words. -/
def registers (m : Machine) : Registers := fun r => (m.regs.get r).toInt64

theorem holds_registers (m : Machine) : m.Holds m.registers := fun _ => rfl

theorem Holds.get_eq {m last : Machine} {regs : Registers} (h : last.Holds regs) {r : Register}
    (hr : regs r = m.registers r) : last.regs.get r = m.regs.get r :=
  congrArg Int64.toUInt64 ((h r).trans hr)

theorem At.runs_straight {m : Machine} {is : List Instruction} (h : m.At (Instruction.code (is ++ [.ret])))
    (henc : ∀ i ∈ is, ∃ bytes, i.encode? = some bytes) (hret : ∀ i ∈ is, i ≠ .ret) {regs : Registers}
    (hregs : m.Holds regs) :
    ∃ log last, m.Runs 0 log last (.ok ()) ∧ log.length = is.length + 1 ∧
      last.steps = m.steps + .ofNat (is.length + 1) ∧ last.Holds (is.foldl Registers.after regs) := by
  induction is generalizing m regs with
  | nil =>
    have hat : m.At ([0xC3] ++ []) := h
    have hstep := step_encoded hat (rfl : Instruction.ret.encode? = some [0xC3])
    exact ⟨_, _, .next h.running rfl hstep (.halted rfl), rfl, rfl, hregs⟩
  | cons i is ih =>
    obtain ⟨⟨bytes, hbytes⟩, his⟩ := List.forall_mem_cons.mp henc
    obtain ⟨hi, hothers⟩ := List.forall_mem_cons.mp hret
    rw [List.cons_append, Instruction.code, List.flatMap_cons, hbytes, Option.getD_some] at h
    have hmoved : Holds { m with rip := m.rip + bytes.length, steps := m.steps + 1 } regs := hregs
    obtain ⟨log, last, hruns, hlog, hsteps, hlast⟩ :=
      ih (h.execute hi (m.steps + 1)) his hothers (hmoved.execute i)
    refine ⟨_, last, .next h.running rfl (step_encoded h hbytes) hruns, ?_, ?_, hlast⟩
    · rw [List.length_cons, hlog, List.length_cons]
    · rw [hsteps, steps_execute, List.length_cons, Int64.add_assoc, Nat.add_comm (is.length + 1) 1,
        Int64.ofNat_add 1]
      rfl

end Machine

theorem Listing.load_program {is : List Instruction}
    (henc : ∀ i ∈ is, ∃ bytes, i.encode? = some bytes) (m : Machine) :
    ∃ object loaded, assemble (program (is.map Instruction.statement)) = .ok object ∧
      object.entry? entryLabel = some 0 ∧ m.load object.code 0 = .ok loaded ∧
      loaded.At (Instruction.code (is ++ [.ret])) ∧ loaded.steps = 0 ∧ loaded.regs = m.regs ∧
      loaded.memory = object.code.toArray := by
  have hcode := code_program henc
  rw [Instruction.code_numbered] at hcode
  have hpos : 0 < (SourceLine.draft (programLines is)).toObject.code.length := by
    rw [hcode, Instruction.code, List.flatMap_append, List.length_append]
    exact Nat.add_pos_right _ (by decide)
  refine ⟨_, _, assemble_program henc, entry_program is,
    Machine.load_eq_ok_iff.mpr ⟨⟨by omega, by omega⟩, rfl⟩, ?_, rfl, rfl, rfl⟩
  exact ⟨rfl, [], by simp only [List.nil_append, hcode], rfl⟩

/-- Whatever earlier loads, runs and faults have left in a machine, the code of an expression can be loaded
into it and runs to its return. It leaves the value of the expression in the accumulator, the other
registers as they were, and the code in the memory. It executes one instruction for each operator and two
more, which the counter shows modulo the width of a word. -/
theorem run_loaded_code {e : Expr} {n : Int32} (h : e.literal? = some n) (m : Machine) :
    ∃ listing v object entry loaded, e.code = .ok listing ∧ e.eval = .ok v ∧
      assemble listing.program = .ok object ∧ object.entry? Listing.entryLabel = some entry ∧
      m.load object.code entry = .ok loaded ∧
      loaded.run.result = .ok () ∧ loaded.run.machine.rax = v ∧
      (∀ r, r ≠ Register.rax → loaded.run.machine.regs.get r = m.regs.get r) ∧
      loaded.run.machine.memory = object.code.toArray ∧ loaded.run.log.length = e.operators.length + 2 ∧
      loaded.run.machine.steps = .ofNat (e.operators.length + 2) := by
  obtain ⟨object, loaded, hobject, hentry, hload, hat, hzero, hregs, hmemory⟩ :=
    Listing.load_program (e.encode_instructions n) m
  obtain ⟨log, last, hruns, hlog, hsteps, hholds⟩ :=
    hat.runs_straight (e.encode_instructions n) (e.instructions_ne_ret n) loaded.holds_registers
  have hrun : loaded.run = ⟨last, log, .ok ()⟩ := hruns.runWith_eq []
  rw [e.length_instructions n] at hlog hsteps
  refine ⟨_, _, object, 0, loaded, Expr.code_eq h, Expr.eval_eq h, hobject, hentry, hload, ?_⟩
  rw [hrun]
  refine ⟨rfl, ?_, ?_, hruns.memory_eq.trans hmemory, hlog, ?_⟩
  · exact (hholds Register.rax).trans (e.after_instructions n _)
  · intro r hr
    rw [← hregs]
    apply hholds.get_eq
    apply Registers.foldl_of_target_ne
    intro i hi htarget
    rw [e.target_instructions n i hi] at htarget
    exact hr (Option.some.inj htarget).symm
  · rw [hsteps, hzero, Int64.zero_add]

/-- A machine that has halted far outside its memory, with all registers and flags in use. -/
theorem run_loaded_code_used :
    ∃ listing object entry loaded,
    Expr.code (.apply .sub1 (.apply .sub1 (.num (-2147483648)))) = .ok listing ∧
      assemble listing.program = .ok object ∧ object.entry? Listing.entryLabel = some entry ∧
      Machine.load ⟨.replicate 16 7, -3, ⟨true, true, true, true⟩, true, -1, #[0xCC]⟩ object.code entry =
        .ok loaded ∧ loaded.run.result = .ok () ∧ loaded.run.machine.rax = -2147483650 ∧
      loaded.run.machine.regs.get 15 = 7 ∧ loaded.run.machine.steps = 4 := by
  obtain ⟨listing, v, object, entry, loaded, hcode, heval, hobject, hentry, hload, hresult,
    hrax, hothers, -, -,
      hsteps⟩ :=
    run_loaded_code (e := .apply .sub1 (.apply .sub1 (.num (-2147483648)))) rfl
      ⟨.replicate 16 7, -3, ⟨true, true, true, true⟩, true, -1, #[0xCC]⟩
  cases heval
  exact ⟨listing, object, entry, loaded, hcode, hobject, hentry, hload, hresult, hrax,
    hothers 15 (by decide), hsteps⟩

end StepLang
