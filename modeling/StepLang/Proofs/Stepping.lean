import StepLang.Machine.Run
import StepLang.Proofs.Encoding

/-!
# Steps over encoded instructions

Where the bytes of an instruction stand at the instruction pointer, a step executes that instruction and moves
behind it. A step at the end of the memory faults there.
-/

namespace StepLang.Machine

/-- The bytes from the instruction pointer on are `rest`. -/
structure At (m : Machine) (rest : List UInt8) : Prop where
  running : m.halted = false
  inside : ∃ front : List UInt8, m.memory.toList = front ++ rest ∧ m.rip = front.length

theorem ahead_eq {m : Machine} {rest : List UInt8} (h : m.At rest) :
    m.ahead = rest.take Instruction.longest := by
  obtain ⟨front, hmem, hrip⟩ := h.inside
  have hnonneg : ¬ m.rip < 0 := by omega
  have hpos : m.rip.toNat = front.length := by omega
  rw [ahead, if_neg hnonneg, hpos, Array.toList_extract, hmem]
  simp [List.extract]

theorem step_encoded {m : Machine} {i : Instruction} {bytes rest : List UInt8} (h : m.At (bytes ++ rest))
    (henc : i.encode? = some bytes) :
    m.step =
      let after := { m with rip := m.rip + bytes.length, steps := m.steps + 1 }.execute i
      (after, .ok ⟨m.rip, bytes, after.rax⟩) := by
  obtain ⟨-, hlen⟩ := Instruction.length_encode henc
  have hahead : m.ahead = bytes ++ rest.take (Instruction.longest - bytes.length) := by
    rw [ahead_eq h, List.take_append, List.take_of_length_le hlen]
  have hdecode := Instruction.decode_encode henc (rest.take (Instruction.longest - bytes.length))
  rw [← hahead] at hdecode
  unfold step
  rw [h.running, hdecode]
  simp [hahead]

theorem step_end {m : Machine} (h : m.At []) :
    m.step = ({ m with halted := true }, .error (.fault ⟨m.rip, m.rip, m.memory.size, .outside⟩)) := by
  have hahead : m.ahead = [] := ahead_eq h
  unfold step
  rw [h.running, hahead]
  simp [Instruction.decode]

@[simp] theorem steps_execute (m : Machine) (i : Instruction) : (m.execute i).steps = m.steps := by
  cases i <;> rfl

theorem halted_execute (m : Machine) (i : Instruction) : (m.execute i).halted = (m.halted || i = .ret) := by
  cases i <;> simp [execute, setReg]

theorem At.execute {m : Machine} {i : Instruction} {bytes rest : List UInt8} (h : m.At (bytes ++ rest))
    (hret : i ≠ .ret) (steps : Int64) :
    ({ m with rip := m.rip + bytes.length, steps := steps }.execute i).At rest := by
  obtain ⟨front, hmem, hrip⟩ := h.inside
  refine ⟨by simp [halted_execute, h.running, hret], front ++ bytes, ?_, ?_⟩
  · simpa using hmem
  · simp [hrip]

section Running
variable {m after : Machine} {budget : Int64} (log : List Executed)

theorem runWith_halted (h : m.halted = true) : m.runWith budget log = ⟨m, log.reverse, .ok ()⟩ := by
  rw [runWith, if_pos h]

variable (hrun : m.halted = false)
include hrun

theorem runWith_exhausted (hb : m.exhausted budget = true) :
    m.runWith budget log = ⟨m, log.reverse, .error (.limit budget m.rip)⟩ := by
  rw [runWith, if_neg (by simp [hrun]), if_pos hb]

variable (hb : m.exhausted budget = false)
include hb

theorem runWith_error {e : RunError} (h : m.step = (after, .error e)) :
    m.runWith budget log = ⟨after, log.reverse, .error e⟩ := by
  rw [runWith, if_neg (by simp [hrun]), if_neg (by simp [hb])]
  split
  · rename_i heq
    rw [h] at heq
    cases heq
    rfl
  · rename_i heq
    rw [h] at heq
    cases heq

theorem runWith_ok {x : Executed} (h : m.step = (after, .ok x)) :
    m.runWith budget log = after.runWith budget (x :: log) := by
  rw [runWith, if_neg (by simp [hrun]), if_neg (by simp [hb])]
  split
  · rename_i heq
    rw [h] at heq
    cases heq
  · rename_i heq
    rw [h] at heq
    cases heq
    rfl

end Running

end StepLang.Machine
