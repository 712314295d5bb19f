import StepLang.Instruction.Decode

/-!
# Decoding what was encoded

The bytes of an instruction decode to that instruction and to nothing beyond their own length, whatever
follows.
-/

namespace StepLang

namespace Encoding

@[simp] theorem length_littleEndian (width n : Nat) : (littleEndian width n).length = width := by
  induction width generalizing n with
  | zero => rfl
  | succ width ih => simp [littleEndian, ih]

theorem span_succ (width : Nat) : span (width + 1) = 256 * span width := by
  simp [span, Nat.pow_succ, Nat.mul_comm]

theorem span_pos (width : Nat) : 0 < span width := Nat.pow_pos (by decide)

theorem ofLittleEndian_littleEndian (width n : Nat) :
    ofLittleEndian (littleEndian width n) = n % span width := by
  induction width generalizing n with
  | zero => simp [littleEndian, ofLittleEndian, span, Nat.mod_one]
  | succ width ih =>
    rw [littleEndian, ofLittleEndian, ih, span_succ, Nat.mod_mul]
    simp

@[simp] theorem length_immediate (width : Nat) (v : Int64) : (immediate width v).length = width := by
  simp [immediate]

theorem ofImmediate_immediate {width : Nat} {v : Int64} (h : fits width v = true) :
    ofImmediate (immediate width v) = v := by
  have hpos : (0 : Int) < span width := by exact_mod_cast span_pos width
  simp only [fits, Bool.and_eq_true, decide_eq_true_eq] at h
  have hnonneg : 0 ≤ v.toInt % (span width : Int) := Int.emod_nonneg _ (by omega)
  have hlt : v.toInt % (span width : Int) < span width := Int.emod_lt_of_pos _ hpos
  have hbytes : (ofLittleEndian (immediate width v) : Int) = v.toInt % (span width : Int) := by
    rw [immediate, ofLittleEndian_littleEndian, Nat.mod_eq_of_lt (by omega), Int.toNat_of_nonneg hnonneg]
  rw [ofImmediate, length_immediate, hbytes, Int.emod_bmod, Int.bmod_eq_of_le_mul_two (by omega) (by omega)]
  exact Int64.ofInt_toInt v

theorem fits_eight (v : Int64) : fits 8 v = true := by
  have hspan : span 8 = 18446744073709551616 := rfl
  have hlo := Int64.le_toInt v
  have hhi := Int64.toInt_lt v
  simp only [fits, hspan, Bool.and_eq_true, decide_eq_true_eq]
  omega

theorem fits_four {v : Int64} : fits 4 v = true ↔ -0x80000000 ≤ v.toInt ∧ v.toInt < 0x80000000 := by
  have hspan : (span 4 : Int) = 2 * 0x80000000 := rfl
  simp only [fits, hspan, Bool.and_eq_true, decide_eq_true_eq]
  omega

theorem fits_mono {width wider : Nat} (h : width ≤ wider) {v : Int64} (hv : fits width v = true) :
    fits wider v = true := by
  have hspan : (span width : Int) ≤ span wider := by exact_mod_cast Nat.pow_le_pow_right (by decide) h
  simp only [fits, Bool.and_eq_true, decide_eq_true_eq] at hv ⊢
  omega

theorem fits_ofImmediate {bs : List UInt8} (h : bs.length ≤ 8) : fits bs.length (ofImmediate bs) = true := by
  have hspan : span bs.length ≤ span 8 := Nat.pow_le_pow_right (by decide) h
  have hwidest : span 8 = 18446744073709551616 := rfl
  have hlo := Int.le_bmod (x := ofLittleEndian bs) (span_pos bs.length)
  have hhi := Int.bmod_lt (x := ofLittleEndian bs) (span_pos bs.length)
  have hvalue : (ofImmediate bs).toInt = Int.bmod (ofLittleEndian bs) (span bs.length) :=
    Int64.toInt_ofInt_of_le (by omega) (by omega)
  simp only [fits, hvalue, Bool.and_eq_true, decide_eq_true_eq]
  omega

theorem leadByte_wide {reg rm : Nat} (hreg : reg < 16) (hrm : rm < 16) :
    leadByte reg rm ≠ 0xC3 ∧ leadByte reg rm ≠ 0x90 ∧ (leadByte reg rm).toNat / 16 = 4 ∧
      (leadByte reg rm).toNat / 8 % 2 ≠ 0 := by
  have h : ∀ reg rm : Fin 16, leadByte reg rm ≠ 0xC3 ∧ leadByte reg rm ≠ 0x90 ∧
      (leadByte reg rm).toNat / 16 = 4 ∧ (leadByte reg rm).toNat / 8 % 2 ≠ 0 := by decide
  exact h ⟨reg, hreg⟩ ⟨rm, hrm⟩

/-- The leading byte and the operand byte together hold all bits of both register numbers. -/
theorem operands_registers (reg rm : Register) :
    (operandByte reg rm).toNat / 64 = 3 ∧
    (OperandPair.ofByte (leadByte reg rm) (operandByte reg rm)).reg = reg ∧
      (OperandPair.ofByte (leadByte reg rm) (operandByte reg rm)).rm = rm := by
  revert reg rm
  decide

theorem operands_selector {n : Nat} (hn : n < 8) (dst : Register) :
    (operandByte n dst).toNat / 64 = 3 ∧
    (OperandPair.ofByte (leadByte 0 dst) (operandByte n dst)).selector = n ∧
      (OperandPair.ofByte (leadByte 0 dst) (operandByte n dst)).rm = dst := by
  have h : ∀ (n : Fin 8) (dst : Register), (operandByte n dst).toNat / 64 = 3 ∧
      (OperandPair.ofByte (leadByte 0 dst) (operandByte n dst)).selector = n ∧
      (OperandPair.ofByte (leadByte 0 dst) (operandByte n dst)).rm = dst := by decide
  exact h ⟨n, hn⟩ dst

theorem opcode_register (dst : Register) :
    (UInt8.ofNat (0xB8 + dst % 8)).toNat / 8 = 0xB8 / 8 ∧
      Register.ofBits (leadByte 0 dst).toNat (UInt8.ofNat (0xB8 + dst % 8)).toNat = dst := by
  revert dst
  decide

end Encoding

open Encoding

namespace Decoded

theorem decode_lead {reg rm : Nat} (hreg : reg < 16) (hrm : rm < 16) (op : UInt8) (rest : List UInt8) :
    Instruction.decode (leadByte reg rm :: op :: rest) = ofOpcode (leadByte reg rm) op rest := by
  obtain ⟨hret, hnop, hlead, hwide⟩ := leadByte_wide hreg hrm
  simp [Instruction.decode, hret, hnop, hlead, hwide]

theorem ofOpcode_operands {lead op b : UInt8} (hop : takesOperands op = true) (himm : op.toNat / 8 ≠ 0xB8 / 8)
    (hb : b.toNat / 64 = 3) (rest : List UInt8) :
    ofOpcode lead op (b :: rest) = ofOperands op (.ofByte lead b) rest := by
  simp only [ofOpcode, himm, if_false, hop, if_true, hb, ne_eq, not_true_eq_false]

theorem decode_between (reg rm : Register) {op : UInt8} (hop : takesOperands op = true)
    (himm : op.toNat / 8 ≠ 0xB8 / 8) (rest : List UInt8) :
    Instruction.decode (leadByte reg rm :: op :: operandByte reg rm :: rest) =
    ofOperands op ⟨reg, rm⟩ rest := by
  obtain ⟨hb, hreg⟩ := operands_registers reg rm
  have hpair : OperandPair.ofByte (leadByte reg rm) (operandByte reg rm) = ⟨reg, rm⟩ := by
    rw [← OperandPair.mk.injEq] at hreg
    exact hreg
  rw [decode_lead reg.isLt rm.isLt, ofOpcode_operands hop himm hb, hpair]

theorem decode_mov_short {dst : Register} {v : Int64} (h : fits 4 v = true) (rest : List UInt8) :
    Instruction.decode ([leadByte 0 dst, 0xC7, operandByte 0 dst] ++ immediate 4 v ++ rest) =
      .instruction (.mov dst (.imm v)) 7 := by
  obtain ⟨hb, hsel, hrm⟩ := operands_selector (by decide : 0 < 8) dst
  have hlen : ¬ (immediate 4 v ++ rest).length < 4 := by simp
  have htake : (immediate 4 v ++ rest).take 4 = immediate 4 v := List.take_left' (length_immediate 4 v)
  simp only [List.cons_append, List.nil_append]
  rw [decode_lead (by decide) dst.isLt, ofOpcode_operands (by decide) (by decide) hb,
    ofOperands.eq_def, if_pos rfl, hsel, if_neg (by simp), if_neg hlen, htake, ofImmediate_immediate h, hrm]

theorem decode_mov_long (dst : Register) (v : Int64) (rest : List UInt8) :
    Instruction.decode ([leadByte 0 dst, UInt8.ofNat (0xB8 + dst % 8)] ++ immediate 8 v ++ rest) =
      .instruction (.mov dst (.imm v)) 10 := by
  obtain ⟨hop, hdst⟩ := opcode_register dst
  have hlen : ¬ (immediate 8 v ++ rest).length < 8 := by simp
  have htake : (immediate 8 v ++ rest).take 8 = immediate 8 v := List.take_left' (length_immediate 8 v)
  simp only [List.cons_append, List.nil_append]
  rw [decode_lead (by decide) dst.isLt, ofOpcode.eq_def, if_pos hop, if_neg hlen, htake,
    ofImmediate_immediate (fits_eight v), hdst]

theorem aluImmediate_selector (op : AluOp) {p : OperandPair} (h : p.selector = op.selector) (imm : List UInt8)
    (width : Nat) :
    aluImmediate p imm width = .instruction (.alu op p.rm (.imm (ofImmediate imm))) width := by
  cases op <;> simp [aluImmediate, h, AluOp.selector, AluOp.ofSelector?]

theorem selector_lt (op : AluOp) : op.selector < 8 := by
  cases op <;> decide

theorem decode_alu_byte {op : AluOp} {dst : Register} {v : Int64} (h : fits 1 v = true) (rest : List UInt8) :
    Instruction.decode ([leadByte 0 dst, 0x83, operandByte op.selector dst] ++ immediate 1 v ++ rest) =
      .instruction (.alu op dst (.imm v)) 4 := by
  obtain ⟨hb, hsel, hrm⟩ := operands_selector (selector_lt op) dst
  obtain ⟨b, hv⟩ := List.length_eq_one_iff.mp (length_immediate 1 v)
  have himm := ofImmediate_immediate h
  rw [hv] at himm ⊢
  simp only [List.cons_append, List.nil_append]
  rw [decode_lead (by decide) dst.isLt, ofOpcode_operands (by decide) (by decide) hb, ofOperands,
    if_neg (by decide), if_pos rfl, aluImmediate_selector op hsel, himm, hrm]

theorem decode_alu_word {op : AluOp} {dst : Register} {v : Int64} (h : fits 4 v = true) (rest : List UInt8) :
    Instruction.decode ([leadByte 0 dst, 0x81, operandByte op.selector dst] ++ immediate 4 v ++ rest) =
      .instruction (.alu op dst (.imm v)) 7 := by
  obtain ⟨hb, hsel, hrm⟩ := operands_selector (selector_lt op) dst
  have hlen : ¬ (immediate 4 v ++ rest).length < 4 := by simp
  have htake : (immediate 4 v ++ rest).take 4 = immediate 4 v := List.take_left' (length_immediate 4 v)
  simp only [List.cons_append, List.nil_append]
  rw [decode_lead (by decide) dst.isLt, ofOpcode_operands (by decide) (by decide) hb, ofOperands.eq_def,
    if_neg (by decide), if_neg (by decide), if_pos rfl, if_neg hlen, htake, aluImmediate_selector op hsel,
    ofImmediate_immediate h, hrm]

end Decoded

namespace Instruction

open Decoded

theorem decode_encode {i : Instruction} {bytes : List UInt8} (h : i.encode? = some bytes)
    (rest : List UInt8) :
    decode (bytes ++ rest) = .instruction i bytes.length := by
  cases i with
  | ret =>
    cases h
    rfl
  | nop =>
    cases h
    rfl
  | mov dst src =>
    cases src with
    | reg src =>
      cases h
      exact decode_between src dst (by decide) (by decide) rest
    | imm v =>
      rw [encode?] at h
      split at h
      · rename_i hfits
        cases h
        simpa using decode_mov_short hfits rest
      · cases h
        simpa using decode_mov_long dst v rest
  | alu op dst src =>
    cases src with
    | reg src =>
      cases h
      cases op with
      | add => exact decode_between src dst (by decide) (by decide) rest
      | sub => exact decode_between src dst (by decide) (by decide) rest
    | imm v =>
      rw [encode?] at h
      split at h
      · rename_i hfits
        cases h
        simpa using decode_alu_byte hfits rest
      split at h
      · rename_i hfits
        cases h
        simpa using decode_alu_word hfits rest
      · cases h

theorem length_encode {i : Instruction} {bytes : List UInt8} (h : i.encode? = some bytes) :
    0 < bytes.length ∧ bytes.length ≤ longest := by
  cases i with
  | ret =>
    cases h
    decide
  | nop =>
    cases h
    decide
  | mov dst src =>
    cases src with
    | reg src =>
      cases h
      simp [longest]
    | imm v =>
      rw [encode?] at h
      split at h <;> cases h <;> simp [longest]
  | alu op dst src =>
    cases src with
    | reg src =>
      cases h
      simp [longest]
    | imm v =>
      rw [encode?] at h
      split at h
      · cases h
        simp [longest]
      split at h
      · cases h
        simp [longest]
      · cases h

end Instruction

end StepLang
