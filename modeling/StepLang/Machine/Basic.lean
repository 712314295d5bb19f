import StepLang.Instruction.Decode
import StepLang.Text.Numeral

/-!
# The machine

Sixteen registers, four flags and a memory that holds the code. The instruction pointer is an arbitrary
integer; outside the memory no instruction is found.
-/

namespace StepLang

structure Flags where
  zero : Bool
  sign : Bool
  carry : Bool
  overflow : Bool
  deriving DecidableEq

structure Machine where
  regs : Vector UInt64 16
  rip : Int
  flags : Flags
  halted : Bool
  /-- The instructions executed since the code was loaded, modulo the width of a word. -/
  steps : Int64
  memory : Array UInt8
  deriving DecidableEq

structure LoadError where
  entry : Int
  size : Nat
  deriving DecidableEq

def LoadError.message (e : LoadError) : Text :=
  "entry offset " ++ Numeral.int e.entry ++ " outside code (" ++ Numeral.nat e.size ++ " bytes)"

/-- Both words are on the same side of the middle of the signed range. -/
def sameSign (a b : UInt64) : Bool := (a < 0x8000000000000000) == (b < 0x8000000000000000)

def Flags.ofResult (result : UInt64) (carry overflow : Bool) : Flags :=
  ⟨result = 0, 0x8000000000000000 ≤ result, carry, overflow⟩

/-- The result of an operation and the flags that it sets. A carry shows as a result that wrapped past the
destination, and an overflow as a result whose sign the operands rule out. -/
def AluOp.compute : AluOp → UInt64 → UInt64 → UInt64 × Flags
  | add, a, b => (a + b, .ofResult (a + b) (a + b < a) (sameSign a b && !sameSign (a + b) a))
  | sub, a, b => (a - b, .ofResult (a - b) (a < b) (!sameSign a b && !sameSign (a - b) a))

namespace Machine

def initial : Machine := ⟨.replicate 16 0, 0, ⟨false, false, false, false⟩, false, 0, #[]⟩

def rax (m : Machine) : Int64 := (m.regs.get Register.rax).toInt64

/-- Registers and flags stay as they were. -/
def load (m : Machine) (code : List UInt8) (entry : Int) : Except LoadError Machine :=
  if entry < 0 ∨ (code.length : Int) ≤ entry then .error ⟨entry, code.length⟩
  else .ok { m with memory := code.toArray, rip := entry, halted := false, steps := 0 }

def operandValue (m : Machine) : Operand → UInt64
  | .reg r => m.regs.get r
  | .imm v => v.toUInt64

def setReg (m : Machine) (r : Register) (v : UInt64) : Machine := { m with regs := m.regs.set r.val v r.isLt }

/-- What an instruction does besides being passed. -/
def execute (m : Machine) : Instruction → Machine
  | .ret => { m with halted := true }
  | .nop => m
  | .mov dst src => m.setReg dst (m.operandValue src)
  | .alu op dst src =>
    let (result, flags) := op.compute (m.regs.get dst) (m.operandValue src)
    { m.setReg dst result with flags := flags }

end Machine

end StepLang
