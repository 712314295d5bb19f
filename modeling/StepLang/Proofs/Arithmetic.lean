import StepLang.Proofs.Interpretation
import StepLang.Proofs.Running

/-!
# What the flags tell

A word stands for a natural number, and in two's complement for an integer. The result of an addition or
subtraction is the exact result modulo the number of words, and the flags tell what the exact results would
have shown: the carry that the natural number is no word, the overflow that the integer is none, and the
other two what the result is.
-/

namespace StepLang

theorem toInt_toInt64 (a : UInt64) :
    a.toInt64.toInt =
      if a.toNat < 0x8000000000000000 then (a.toNat : Int) else a.toNat - 0x10000000000000000 := by
  change a.toBitVec.toInt = _
  rw [BitVec.toInt_eq_toNat_cond]
  change (if 2 * a.toNat < 0x10000000000000000 then (a.toNat : Int) else a.toNat - 0x10000000000000000) = _
  by_cases h : a.toNat < 0x8000000000000000
  · rw [if_pos h, if_pos (by omega)]
  · rw [if_neg h, if_neg (by omega)]

theorem sameSign_iff {a b : UInt64} :
    sameSign a b = true ↔ (a.toNat < 0x8000000000000000 ↔ b.toNat < 0x8000000000000000) := by
  rw [sameSign, beq_iff_eq, decide_eq_decide, UInt64.lt_iff_toNat_lt, UInt64.lt_iff_toNat_lt]
  rfl

/-- The integer is not the value of any word in two's complement. -/
def Overflows (z : Int) : Prop := z < -0x8000000000000000 ∨ 0x7FFFFFFFFFFFFFFF < z

/-- The flags tell what the result is, whether something was carried, and whether the exact signed result,
given by `exact`, is out of range. -/
structure Flags.Tell (flags : Flags) (result : UInt64) (carried : Prop) (exact : Int) : Prop where
  zero : flags.zero = true ↔ result = 0
  sign : flags.sign = true ↔ result.toInt64.toInt < 0
  carry : flags.carry = true ↔ carried
  overflow : flags.overflow = true ↔ Overflows exact

/-- What an instruction leaves in the flags. Only additions and subtractions set them. -/
def Instruction.Signals (m after : Machine) : Instruction → Prop
  | .alu .add dst src =>
    let a := m.regs.get dst
    let v := m.operandValue src
    (after.regs.get dst).toNat = (a.toNat + v.toNat) % 0x10000000000000000 ∧
      after.flags.Tell (after.regs.get dst) (0x10000000000000000 ≤ a.toNat + v.toNat)
        (a.toInt64.toInt + v.toInt64.toInt)
  | .alu .sub dst src =>
    let a := m.regs.get dst
    let v := m.operandValue src
    ((after.regs.get dst).toNat : Int) = ((a.toNat : Int) - v.toNat) % 0x10000000000000000 ∧
      after.flags.Tell (after.regs.get dst) (a.toNat < v.toNat) (a.toInt64.toInt - v.toInt64.toInt)
  | .mov _ _ => after.flags = m.flags
  | .nop => after.flags = m.flags
  | .ret => after.flags = m.flags

namespace Flags

theorem zero_ofResult (result : UInt64) (carry overflow : Bool) :
    (ofResult result carry overflow).zero = true ↔ result = 0 := decide_eq_true_iff

theorem sign_ofResult (result : UInt64) (carry overflow : Bool) :
    (ofResult result carry overflow).sign = true ↔ result.toInt64.toInt < 0 := by
  have hlt := result.toNat_lt
  have htop : (0x8000000000000000 : UInt64).toNat = 0x8000000000000000 := rfl
  rw [toInt_toInt64]
  simp only [ofResult, decide_eq_true_eq, UInt64.le_iff_toNat_le, htop]
  split
  · omega
  · omega

end Flags

namespace AluOp

theorem toNat_add_eq (a v : UInt64) : (a + v).toNat = (a.toNat + v.toNat) % 0x10000000000000000 :=
  UInt64.toNat_add a v

theorem toNat_sub_eq (a v : UInt64) :
    ((a - v).toNat : Int) = ((a.toNat : Int) - v.toNat) % 0x10000000000000000 := by
  have ha := a.toNat_lt
  have hv := v.toNat_lt
  rw [UInt64.toNat_sub]
  omega

theorem carry_add_iff (a v : UInt64) : a + v < a ↔ 0x10000000000000000 ≤ a.toNat + v.toNat := by
  have ha := a.toNat_lt
  have hv := v.toNat_lt
  rw [UInt64.lt_iff_toNat_lt, toNat_add_eq]
  omega

theorem overflow_add_iff (a v : UInt64) :
    (sameSign a v && !sameSign (a + v) a) = true ↔ Overflows (a.toInt64.toInt + v.toInt64.toInt) := by
  have ha := a.toNat_lt
  have hv := v.toNat_lt
  have hsum := toNat_add_eq a v
  rw [Bool.and_eq_true, Bool.not_eq_true', Bool.eq_false_iff, ne_eq, sameSign_iff, sameSign_iff, Overflows,
    toInt_toInt64, toInt_toInt64]
  split
  · split
    · omega
    · omega
  · split
    · omega
    · omega

theorem overflow_sub_iff (a v : UInt64) :
    (!sameSign a v && !sameSign (a - v) a) = true ↔ Overflows (a.toInt64.toInt - v.toInt64.toInt) := by
  have ha := a.toNat_lt
  have hv := v.toNat_lt
  have hdifference := toNat_sub_eq a v
  rw [Bool.and_eq_true, Bool.not_eq_true', Bool.not_eq_true', Bool.eq_false_iff,
    Bool.eq_false_iff, ne_eq, ne_eq, sameSign_iff, sameSign_iff, Overflows, toInt_toInt64, toInt_toInt64]
  split
  · split
    · omega
    · omega
  · split
    · omega
    · omega

theorem tell_add (a v : UInt64) :
    (compute .add a v).2.Tell (a + v) (0x10000000000000000 ≤ a.toNat + v.toNat)
      (a.toInt64.toInt + v.toInt64.toInt) where
  zero := Flags.zero_ofResult _ _ _
  sign := Flags.sign_ofResult _ _ _
  carry := decide_eq_true_iff.trans (carry_add_iff a v)
  overflow := overflow_add_iff a v

theorem tell_sub (a v : UInt64) :
    (compute .sub a v).2.Tell (a - v) (a.toNat < v.toNat) (a.toInt64.toInt - v.toInt64.toInt) where
  zero := Flags.zero_ofResult _ _ _
  sign := Flags.sign_ofResult _ _ _
  carry := decide_eq_true_iff.trans UInt64.lt_iff_toNat_lt
  overflow := overflow_sub_iff a v

end AluOp

namespace Machine

theorem get_execute_alu (m : Machine) (op : AluOp) (dst : Register) (src : Operand) :
    (m.execute (.alu op dst src)).regs.get dst = (op.compute (m.regs.get dst) (m.operandValue src)).1 := by
  change (m.setReg dst (op.compute (m.regs.get dst) (m.operandValue src)).1).regs.get dst = _
  rw [get_setReg, if_pos rfl]

/-- The source is read before the destination is written, so they may be the same register. -/
theorem execute_signals (m : Machine) (i : Instruction) (rip : Int) (steps : Int64) :
    i.Signals m ({ m with rip := rip, steps := steps }.execute i) := by
  cases i with
  | ret => rfl
  | nop => rfl
  | mov dst src => rfl
  | alu op dst src =>
    have hresult := get_execute_alu { m with rip := rip, steps := steps } op dst src
    cases op with
    | add =>
      rw [Instruction.Signals, hresult]
      exact ⟨AluOp.toNat_add_eq _ _, AluOp.tell_add _ _⟩
    | sub =>
      rw [Instruction.Signals, hresult]
      exact ⟨AluOp.toNat_sub_eq _ _, AluOp.tell_sub _ _⟩

end Machine

/-- Wherever the bytes of an instruction stand, in the form between registers or with an immediate of either
width, a step succeeds and leaves the result and the flags that the exact results on the words before it ask
for. -/
theorem step_signals {m : Machine} {i : Instruction} {bytes rest : List UInt8}
    (hforms : Instruction.Forms bytes i)
    (hat : m.At (bytes ++ rest)) : ∃ after x, m.step = (after, .ok x) ∧ i.Signals m after := by
  have hstep := hat.step_forms hforms
  have hsignals := m.execute_signals i (m.rip + bytes.length) (m.steps + 1)
  exact ⟨_, _, hstep, hsignals⟩

/-- The least signed word added to itself, from one register, and less an immediate of one byte that is
extended to the greatest unsigned word. -/
theorem step_signals_least :
    (∃ after x, Machine.step ⟨.replicate 16 0x8000000000000000, 0, ⟨false, true, false, false⟩, false, 7,
        #[0x48, 0x01, 0xDB]⟩ = (after, .ok x) ∧
      after.regs.get 3 = 0 ∧ after.flags.zero = true ∧ after.flags.carry = true ∧
      after.flags.overflow = true) ∧
    ∃ after x, Machine.step ⟨.replicate 16 0x8000000000000000, 1, ⟨true, true, true, true⟩, false, 7,
        #[0x90, 0x49, 0x83, 0xE9, 0xFF]⟩ = (after, .ok x) ∧
      (after.regs.get 9).toNat = 0x8000000000000001 ∧ after.flags.carry = true ∧ after.flags.sign = true ∧
      ¬ after.flags.overflow = true := by
  constructor
  · have hforms : Instruction.Forms [0x48, 0x01, 0xDB] (.alu .add 3 (.reg 3)) :=
      .between ⟨by decide, by decide⟩ (by decide) .add
    have hat : Machine.At ⟨.replicate 16 0x8000000000000000, 0, ⟨false, true, false, false⟩, false, 7,
        #[0x48, 0x01, 0xDB]⟩ ([0x48, 0x01, 0xDB] ++ []) := ⟨rfl, [], rfl, rfl⟩
    obtain ⟨after, x, hstep, hresult, htell⟩ := step_signals hforms hat
    have hzero : after.regs.get 3 = 0 := UInt64.toNat_inj.mp hresult
    refine ⟨after, x, hstep, hzero, htell.zero.mpr hzero, htell.carry.mpr ?_, htell.overflow.mpr ?_⟩
    · decide
    · exact .inl (by decide)
  · have hforms : Instruction.Forms [0x49, 0x83, 0xE9, 0xFF]
        (.alu .sub 9 (.imm (Encoding.ofImmediate [0xFF]))) :=
      .aluImmediate ⟨by decide, by decide⟩ (by decide) rfl (.inl ⟨rfl, rfl⟩)
    have hat : Machine.At ⟨.replicate 16 0x8000000000000000, 1, ⟨true, true, true, true⟩, false, 7,
        #[0x90, 0x49, 0x83, 0xE9, 0xFF]⟩ ([0x49, 0x83, 0xE9, 0xFF] ++ []) := ⟨rfl, [0x90], rfl, rfl⟩
    obtain ⟨after, x, hstep, hresult, htell⟩ := step_signals hforms hat
    have hword : (after.regs.get 9).toNat = 0x8000000000000001 := Int.ofNat.inj hresult
    refine ⟨after, x, hstep, hword, htell.carry.mpr ?_, htell.sign.mpr ?_, fun h => ?_⟩
    · decide
    · rw [toInt_toInt64, hword]
      decide
    · rcases htell.overflow.mp h with hlow | hhigh
      · exact absurd hlow (by decide)
      · exact absurd hhigh (by decide)

end StepLang
