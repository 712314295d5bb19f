import StepLang.Instruction.Basic

/-!
# Instructions as bytes

An instruction on registers starts with a byte that asks for 64 bits and carries the top bits of the register
numbers; the opcode follows, then a byte with the low bits of both register numbers. Immediates take the
shortest of the widths that their instruction has.
-/

namespace StepLang

namespace Encoding

def littleEndian : Nat → Nat → List UInt8
  | 0, _ => []
  | width + 1, n => UInt8.ofNat (n % 256) :: littleEndian width (n / 256)

def span (width : Nat) : Nat := Nat.pow 256 width

/-- The two's complement of a value in a number of bytes. -/
def immediate (width : Nat) (value : Int64) : List UInt8 :=
  littleEndian width (value.toInt % (span width : Int)).toNat

def fits (width : Nat) (value : Int64) : Bool :=
  -(span width : Int) ≤ 2 * value.toInt && 2 * value.toInt < (span width : Int)

/-- The leading byte: 64 bits, and the top bits of both register numbers. -/
def leadByte (reg rm : Nat) : UInt8 := UInt8.ofNat (0x48 + 4 * (reg / 8) + rm / 8)

/-- The byte that names both operands by the low bits of their numbers. -/
def operandByte (reg rm : Nat) : UInt8 := UInt8.ofNat (0xC0 + 8 * (reg % 8) + rm % 8)

end Encoding

namespace AluOp

def opcode : AluOp → UInt8
  | add => 0x01
  | sub => 0x29

def selector : AluOp → Nat
  | add => 0
  | sub => 5

end AluOp

open Encoding in
/-- An addition or subtraction has no form for an immediate of more than four bytes. -/
def Instruction.encode? : Instruction → Option (List UInt8)
  | ret => some [0xC3]
  | nop => some [0x90]
  | mov dst (.reg src) => some [leadByte src dst, 0x89, operandByte src dst]
  | mov dst (.imm v) =>
    if fits 4 v then some ([leadByte 0 dst, 0xC7, operandByte 0 dst] ++ immediate 4 v)
    else some ([leadByte 0 dst, UInt8.ofNat (0xB8 + dst % 8)] ++ immediate 8 v)
  | alu op dst (.reg src) => some [leadByte src dst, op.opcode, operandByte src dst]
  | alu op dst (.imm v) =>
    if fits 1 v then some ([leadByte 0 dst, 0x83, operandByte op.selector dst] ++ immediate 1 v)
    else if fits 4 v then some ([leadByte 0 dst, 0x81, operandByte op.selector dst] ++ immediate 4 v)
    else none

end StepLang
