import StepLang.Register

/-!
# Instructions

The part of the instruction set that has an assembly form: moves, additions and subtractions of 64 bits
between registers or from an immediate, the empty instruction and the return.
-/

namespace StepLang

inductive AluOp where
  | add
  | sub
  deriving DecidableEq

inductive Operand where
  | reg (r : Register)
  | imm (value : Int64)
  deriving DecidableEq

inductive Instruction where
  | ret
  | nop
  | mov (dst : Register) (src : Operand)
  | alu (op : AluOp) (dst : Register) (src : Operand)
  deriving DecidableEq

end StepLang
