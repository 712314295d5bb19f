import StepLang.Machine.Basic

/-!
# Running the machine

A step decodes and executes one instruction. A fault stops the machine with the instruction pointer behind the
bytes that were read, and changes nothing else. Every step that succeeds moves the instruction pointer on
inside the memory, so every run ends.
-/

namespace StepLang

structure Fault where
  start : Int
  stop : Int
  size : Nat
  cause : DecodeFault
  deriving DecidableEq

def Fault.reason (f : Fault) : Text :=
  match f.cause with
  | .outside => "rip " ++ Numeral.address f.stop ++ " outside code (" ++ Numeral.nat f.size ++ " bytes)"
  | .truncated => "truncated immediate at " ++ Numeral.address f.stop
  | .memoryOperand => "memory operand at " ++ Numeral.address (f.stop - 1) ++ " not supported"
  | .opcode op => "unsupported opcode 0x" ++ Numeral.hexByte op
  | .notWide lead => "only 64-bit operands are supported (rex 0x" ++ Numeral.hexByte lead ++ ")"
  | .opcodeAfter op lead =>
    "unsupported opcode 0x" ++ Numeral.hexByte op ++ " after rex 0x" ++ Numeral.hexByte lead
  | .movSelector n => "invalid extension /" ++ Numeral.nat n ++ " for mov"
  | .aluSelector n => "unsupported arithmetic extension /" ++ Numeral.nat n

inductive RunError where
  | halted
  | fault (f : Fault)
  | limit (budget : Int64) (rip : Int)
  deriving DecidableEq

def RunError.message : RunError → Text
  | halted => "cpu halted"
  | fault f => "at " ++ Numeral.address f.start ++ ": " ++ f.reason
  | limit budget rip => "step limit " ++ Numeral.int budget.toInt ++ " reached at " ++ Numeral.address rip

structure Executed where
  offset : Int
  code : List UInt8
  rax : Int64
  deriving DecidableEq

def Executed.text (x : Executed) : Text :=
  Numeral.hex 4 x.offset.toNat ++ "  " ++ (Numeral.hexBytes x.code).padRight 8 ++ " rax=" ++
    Numeral.int x.rax.toInt

def Executed.trace (log : List Executed) : Text := .unlines (log.map text)

namespace Machine

/-- The bytes from the instruction pointer on, as many as an instruction can have. -/
def ahead (m : Machine) : List UInt8 :=
  if m.rip < 0 then []
  else (m.memory.extract m.rip.toNat (m.rip.toNat + Instruction.longest)).toList

def step (m : Machine) : Machine × Except RunError Executed :=
  if m.halted then (m, .error .halted)
  else
    match Instruction.decode m.ahead with
    | .fault cause consumed =>
      let stop := m.rip + consumed
      ({ m with rip := stop, halted := true }, .error (.fault ⟨m.rip, stop, m.memory.size, cause⟩))
    | .instruction i width =>
      let after := { m with rip := m.rip + width, steps := m.steps + 1 }.execute i
      (after, .ok ⟨m.rip, m.ahead.take width, after.rax⟩)

@[simp] theorem memory_execute (m : Machine) (i : Instruction) : (m.execute i).memory = m.memory := by
  cases i <;> rfl

@[simp] theorem rip_execute (m : Machine) (i : Instruction) : (m.execute i).rip = m.rip := by
  cases i <;> rfl

theorem ahead_length (m : Machine) :
    m.ahead.length = if m.rip < 0 then 0 else min 10 (m.memory.size - m.rip.toNat) := by
  unfold ahead
  split
  · rfl
  · simp only [Array.length_toList, Array.size_extract, Instruction.longest]
    omega

theorem step_ok {m after : Machine} {x : Executed} (h : m.step = (after, .ok x)) :
    after.memory = m.memory ∧ 0 ≤ m.rip ∧ m.rip < after.rip ∧ after.rip ≤ m.memory.size := by
  unfold step at h
  split at h
  · simp at h
  · have hw := Decoded.decode_within m.ahead
    split at h
    · simp at h
    · rename_i i width hd
      simp only [hd, Decoded.Within, ahead_length] at hw
      simp only [Prod.mk.injEq, Except.ok.injEq] at h
      rw [← h.1]
      simp only [memory_execute, rip_execute, true_and]
      split at hw <;> omega

structure Ending where
  machine : Machine
  log : List Executed
  result : Except RunError Unit

/-- The budget bounds the step count; zero or less means no bound. -/
def exhausted (m : Machine) (budget : Int64) : Bool := 0 < budget && budget ≤ m.steps

/-- Goes on with a run whose log so far stands newest first. -/
def runWith (budget : Int64) (log : List Executed) (m : Machine) : Ending :=
  if m.halted then ⟨m, log.reverse, .ok ()⟩
  else if m.exhausted budget then ⟨m, log.reverse, .error (.limit budget m.rip)⟩
  else
    match _h : m.step with
    | (after, .error e) => ⟨after, log.reverse, .error e⟩
    | (after, .ok x) => runWith budget (x :: log) after
termination_by m.memory.size - m.rip.toNat
decreasing_by
  have := step_ok _h
  rw [this.1]
  omega

def runUntil (m : Machine) (budget : Int64) : Ending := m.runWith budget []

def run (m : Machine) : Ending := m.runUntil 0

end Machine

end StepLang
