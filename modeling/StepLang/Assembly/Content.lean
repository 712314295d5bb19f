import StepLang.Assembly.Line
import StepLang.Instruction.Encode
import StepLang.Text.Literal

/-!
# What a line contributes

A command is the directive of the text section, the directive that exports symbols, or an instruction.
-/

namespace StepLang

inductive Content where
  | nothing
  | textSection
  | exports (names : List Text)
  | code (i : Instruction) (bytes : List UInt8)
  deriving DecidableEq

namespace Command

def source (word : Text) : Except LineFault Operand :=
  match Register.ofName? word with
  | some r => .ok (.reg r)
  | none =>
    match Literal.marked? 64 word with
    | .ok v => .ok (.imm (.ofInt v))
    | .error .outOfRange => .error (.immediateRange word)
    | .error .malformed => .error (.invalidImmediate word)

def alone (c : Command) (i : Instruction) (bytes : List UInt8) : Except LineFault Content :=
  if c.operands.isEmpty then .ok (.code i bytes) else .error (.expectsNone c.mnemonic)

def binary (c : Command) (form : Register → Operand → Instruction) : Except LineFault Content :=
  match c.operands with
  | [dst, src] =>
    match Register.ofName? dst with
    | none => .error (.invalidRegister dst)
    | some r =>
      match source src with
      | .error e => .error e
      | .ok operand =>
        match (form r operand).encode? with
        | some bytes => .ok (.code (form r operand) bytes)
        | none => .error (.immediateRange src)
  | _ => .error (.expectsTwo c.mnemonic)

def instruction (c : Command) : Except LineFault Content :=
  if c.mnemonic = "RET" then c.alone .ret [0xC3]
  else if c.mnemonic = "NOP" then c.alone .nop [0x90]
  else if c.mnemonic = "MOV" then c.binary .mov
  else if c.mnemonic = "ADD" then c.binary (.alu .add)
  else if c.mnemonic = "SUB" then c.binary (.alu .sub)
  else .error (.unknownInstruction c.mnemonic)

def isDirective (c : Command) : Bool := c.mnemonic = "SECTION" || c.mnemonic = "GLOBAL"

def content (c : Command) : Except LineFault Content :=
  if c.mnemonic = "SECTION" then
    match c.operands with
    | [name] => if name = ".text" then .ok .textSection else .error (.unsupportedSection name)
    | _ => .error .sectionOperands
  else if c.mnemonic = "GLOBAL" then
    if c.operands.isEmpty then .error .globalOperands else .ok (.exports c.operands)
  else c.instruction

end Command

def Line.content (l : Line) : Except LineFault Content :=
  match l.command with
  | none => .ok .nothing
  | some c => c.content

end StepLang
