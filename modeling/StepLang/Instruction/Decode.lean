import StepLang.Instruction.Encode

/-!
# Reading instructions from bytes

Decoding reads the bytes in order and stops at the first that rules every instruction out. A fault says how
many bytes had been read by then.
-/

namespace StepLang

inductive DecodeFault where
  /-- The bytes ended before a byte that was needed. -/
  | outside
  /-- The bytes ended inside an immediate of several bytes. -/
  | truncated
  /-- The last byte read names an operand in memory. -/
  | memoryOperand
  | opcode (op : UInt8)
  | notWide (lead : UInt8)
  | opcodeAfter (op lead : UInt8)
  | movSelector (n : Nat)
  | aluSelector (n : Nat)
  deriving DecidableEq

inductive Decoded where
  | instruction (i : Instruction) (width : Nat)
  | fault (cause : DecodeFault) (consumed : Nat)
  deriving DecidableEq

namespace Encoding

def ofLittleEndian : List UInt8 → Nat
  | [] => 0
  | b :: rest => b.toNat + 256 * ofLittleEndian rest

/-- The value whose two's complement the bytes are. -/
def ofImmediate (bs : List UInt8) : Int64 :=
  .ofInt (Int.bmod (ofLittleEndian bs) (span bs.length))

end Encoding

def AluOp.ofSelector? (n : Nat) : Option AluOp :=
  if n = 0 then some .add else if n = 5 then some .sub else none

/-- The operands named after an opcode: the register or selector, and the register operated on. -/
structure OperandPair where
  reg : Register
  rm : Register

def OperandPair.ofByte (lead b : UInt8) : OperandPair :=
  ⟨.ofBits (lead.toNat / 4) (b.toNat / 8), .ofBits lead.toNat b.toNat⟩

def OperandPair.selector (p : OperandPair) : Nat := p.reg.val % 8

namespace Decoded

def aluImmediate (p : OperandPair) (imm : List UInt8) (width : Nat) : Decoded :=
  match AluOp.ofSelector? p.selector with
  | some op => .instruction (.alu op p.rm (.imm (Encoding.ofImmediate imm))) width
  | none => .fault (.aluSelector p.selector) width

def ofOperands (op : UInt8) (p : OperandPair) (rest : List UInt8) : Decoded :=
  if op = 0xC7 then
    if p.selector ≠ 0 then .fault (.movSelector p.selector) 3
    else if rest.length < 4 then .fault .truncated 3
    else .instruction (.mov p.rm (.imm (Encoding.ofImmediate (rest.take 4)))) 7
  else if op = 0x83 then
    match rest with
    | [] => .fault .outside 3
    | b :: _ => aluImmediate p [b] 4
  else if op = 0x81 then
    if rest.length < 4 then .fault .truncated 3 else aluImmediate p (rest.take 4) 7
  else if op = 0x89 then .instruction (.mov p.rm (.reg p.reg)) 3
  else if op = 0x01 then .instruction (.alu .add p.rm (.reg p.reg)) 3
  else .instruction (.alu .sub p.rm (.reg p.reg)) 3

def takesOperands (op : UInt8) : Bool :=
  op = 0xC7 || op = 0x83 || op = 0x81 || op = 0x89 || op = 0x01 || op = 0x29

def ofOpcode (lead op : UInt8) (rest : List UInt8) : Decoded :=
  if op.toNat / 8 = 0xB8 / 8 then
    if rest.length < 8 then .fault .truncated 2
    else
      .instruction (.mov (.ofBits lead.toNat op.toNat) (.imm (Encoding.ofImmediate (rest.take 8)))) 10
  else if takesOperands op then
    match rest with
    | [] => .fault .outside 2
    | b :: rest =>
      if b.toNat / 64 ≠ 3 then .fault .memoryOperand 3 else ofOperands op (.ofByte lead b) rest
  else .fault (.opcodeAfter op lead) 2

end Decoded

def Instruction.decode : List UInt8 → Decoded
  | [] => .fault .outside 0
  | op :: rest =>
    if op = 0xC3 then .instruction .ret 1
    else if op = 0x90 then .instruction .nop 1
    else if op.toNat / 16 ≠ 4 then .fault (.opcode op) 1
    else if op.toNat / 8 % 2 = 0 then .fault (.notWide op) 1
    else
      match rest with
      | [] => .fault .outside 1
      | op' :: rest => .ofOpcode op op' rest

/-- No instruction is longer. -/
def Instruction.longest : Nat := 10

namespace Decoded

/-- The bytes of an instruction are among those given, and there is at least one. -/
def Within (size : Nat) : Decoded → Prop
  | .instruction _ width => 0 < width ∧ width ≤ size
  | .fault _ consumed => consumed ≤ size

theorem aluImmediate_within {p : OperandPair} {imm : List UInt8} {width size : Nat} (hw : 0 < width)
    (h : width ≤ size) : (aluImmediate p imm width).Within size := by
  unfold aluImmediate
  split
  · exact ⟨hw, h⟩
  · exact h

theorem ofOperands_within (op : UInt8) (p : OperandPair) (rest : List UInt8) :
    (ofOperands op p rest).Within (rest.length + 3) := by
  unfold ofOperands
  split
  · split
    · simp [Within]
    · split
      · simp [Within]
      · simp only [Within]
        omega
  split
  · split
    · simp [Within]
    · refine aluImmediate_within (by omega) ?_
      simp only [List.length_cons]
      omega
  split
  · split
    · simp [Within]
    · exact aluImmediate_within (by omega) (by omega)
  split
  · simp [Within]
  split
  · simp [Within]
  · simp [Within]

theorem ofOpcode_within (lead op : UInt8) (rest : List UInt8) :
    (ofOpcode lead op rest).Within (rest.length + 2) := by
  unfold ofOpcode
  split
  · split
    · simp [Within]
    · simp only [Within]
      omega
  split
  · split
    · simp [Within]
    · rename_i b rest
      split
      · simp only [Within, List.length_cons]
        omega
      · exact ofOperands_within op _ rest
  · simp [Within]

theorem decode_within (bs : List UInt8) : (Instruction.decode bs).Within bs.length := by
  unfold Instruction.decode
  split
  · simp [Within]
  · rename_i op rest
    simp only [List.length_cons]
    split
    · simp [Within]
    split
    · simp [Within]
    split
    · simp [Within]
    split
    · simp [Within]
    split
    · simp [Within]
    · rename_i op' rest
      exact ofOpcode_within op op' rest

end Decoded

end StepLang
