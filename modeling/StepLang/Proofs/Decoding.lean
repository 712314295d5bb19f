import StepLang.Proofs.Encoding

/-!
# What decoding accepts

An instruction is decoded from the bytes of one of the forms below, and nothing behind them is looked at. An
immediate is always the last part of these bytes, so it is inside of whatever they are inside of.
-/

namespace StepLang

namespace Instruction

open Encoding

/-- The byte asks for 64 bits. -/
def IsWide (lead : UInt8) : Prop := lead.toNat / 16 = 4 ∧ lead.toNat / 8 % 2 ≠ 0

/-- The opcodes of the instructions between registers. -/
inductive Between : UInt8 → (Register → Operand → Instruction) → Prop where
  | mov : Between 0x89 .mov
  | add : Between 0x01 (.alu .add)
  | sub : Between 0x29 (.alu .sub)

/-- The bytes form an instruction for the decoder. Many of them are not what the instruction is encoded to. -/
inductive Forms : List UInt8 → Instruction → Prop where
  | ret : Forms [0xC3] .ret
  | nop : Forms [0x90] .nop
  | movLong {lead op : UInt8} {imm : List UInt8} (hlead : IsWide lead) (hop : op.toNat / 8 = 0xB8 / 8)
      (himm : imm.length = 8) :
      Forms (lead :: op :: imm) (.mov (.ofBits lead.toNat op.toNat) (.imm (ofImmediate imm)))
  | movShort {lead b : UInt8} {imm : List UInt8} (hlead : IsWide lead) (hb : b.toNat / 64 = 3)
      (hselector : (OperandPair.ofByte lead b).selector = 0) (himm : imm.length = 4) :
      Forms (lead :: 0xC7 :: b :: imm) (.mov (OperandPair.ofByte lead b).rm (.imm (ofImmediate imm)))
  | aluImmediate {lead op b : UInt8} {imm : List UInt8} {alu : AluOp} (hlead : IsWide lead)
      (hb : b.toNat / 64 = 3) (hselector : AluOp.ofSelector? (OperandPair.ofByte lead b).selector = some alu)
      (himm : op = 0x83 ∧ imm.length = 1 ∨ op = 0x81 ∧ imm.length = 4) :
      Forms (lead :: op :: b :: imm) (.alu alu (OperandPair.ofByte lead b).rm (.imm (ofImmediate imm)))
  | between {lead op b : UInt8} {form : Register → Operand → Instruction} (hlead : IsWide lead)
      (hb : b.toNat / 64 = 3) (hform : Between op form) :
      Forms [lead, op, b] (form (OperandPair.ofByte lead b).rm (.reg (OperandPair.ofByte lead b).reg))

theorem aluImmediate_eq {p : OperandPair} {imm : List UInt8} {n width : Nat} {i : Instruction}
    (h : Decoded.aluImmediate p imm n = .instruction i width) :
    ∃ alu, AluOp.ofSelector? p.selector = some alu ∧
    i = .alu alu p.rm (.imm (ofImmediate imm)) ∧ width = n := by
  unfold Decoded.aluImmediate at h
  split at h
  · rename_i alu halu
    cases h
    exact ⟨alu, halu, rfl, rfl⟩
  · cases h

theorem forms_of_ofOperands {lead op b : UInt8} {rest : List UInt8} {i : Instruction} {width : Nat}
    (hlead : IsWide lead) (hb : b.toNat / 64 = 3) (hop : Decoded.takesOperands op = true)
    (h : Decoded.ofOperands op (.ofByte lead b) rest = .instruction i width) :
    ∃ imm back, rest = imm ++ back ∧ width = imm.length + 3 ∧ Forms (lead :: op :: b :: imm) i := by
  have hfour : ¬ rest.length < 4 → (rest.take 4).length = 4 := by
    intro hlen
    rw [List.length_take]
    omega
  unfold Decoded.ofOperands at h
  split at h
  · rename_i hmov
    subst hmov
    split at h
    · cases h
    rename_i hselector
    split at h
    · cases h
    rename_i hlen
    cases h
    refine ⟨rest.take 4, rest.drop 4, (List.take_append_drop 4 rest).symm, by rw [hfour hlen], ?_⟩
    exact .movShort hlead hb (Decidable.not_not.mp hselector) (hfour hlen)
  split at h
  · rename_i hbyte
    subst hbyte
    split at h
    · cases h
    rename_i v rest
    obtain ⟨alu, halu, rfl, rfl⟩ := aluImmediate_eq h
    exact ⟨[v], rest, rfl, rfl, .aluImmediate hlead hb halu (.inl ⟨rfl, rfl⟩)⟩
  split at h
  · rename_i hword
    subst hword
    split at h
    · cases h
    rename_i hlen
    obtain ⟨alu, halu, rfl, rfl⟩ := aluImmediate_eq h
    refine ⟨rest.take 4, rest.drop 4, (List.take_append_drop 4 rest).symm, by rw [hfour hlen], ?_⟩
    exact .aluImmediate hlead hb halu (.inr ⟨rfl, hfour hlen⟩)
  split at h
  · rename_i hmov
    subst hmov
    cases h
    exact ⟨[], rest, rfl, rfl, .between hlead hb .mov⟩
  split at h
  · rename_i hadd
    subst hadd
    cases h
    exact ⟨[], rest, rfl, rfl, .between hlead hb .add⟩
  · have hsub : op = 0x29 := by
      simp_all [Decoded.takesOperands]
    subst hsub
    cases h
    exact ⟨[], rest, rfl, rfl, .between hlead hb .sub⟩

theorem forms_of_ofOpcode {lead op : UInt8} {rest : List UInt8} {i : Instruction} {width : Nat}
    (hlead : IsWide lead) (h : Decoded.ofOpcode lead op rest = .instruction i width) :
    ∃ bytes back, lead :: op :: rest = bytes ++ back ∧ bytes.length = width ∧ Forms bytes i := by
  unfold Decoded.ofOpcode at h
  split at h
  · rename_i hop
    split at h
    · cases h
    rename_i hlen
    cases h
    have height : (rest.take 8).length = 8 := by
      rw [List.length_take]
      omega
    refine ⟨lead :: op :: rest.take 8, rest.drop 8, ?_, ?_, .movLong hlead hop height⟩
    · rw [List.cons_append, List.cons_append, List.take_append_drop]
    · rw [List.length_cons, List.length_cons, height]
  split at h
  · rename_i hop
    split at h
    · cases h
    rename_i b rest
    split at h
    · cases h
    rename_i hb
    obtain ⟨imm, back, rfl, rfl, hforms⟩ := forms_of_ofOperands hlead (Decidable.not_not.mp hb) hop h
    exact ⟨lead :: op :: b :: imm, back, rfl, rfl, hforms⟩
  · cases h

theorem forms_of_decode {bs : List UInt8} {i : Instruction} {width : Nat}
    (h : decode bs = .instruction i width) :
    ∃ bytes back, bs = bytes ++ back ∧ bytes.length = width ∧ Forms bytes i := by
  unfold decode at h
  split at h
  · cases h
  rename_i op rest
  split at h
  · rename_i hret
    subst hret
    cases h
    exact ⟨[0xC3], rest, rfl, rfl, .ret⟩
  split at h
  · rename_i hnop
    subst hnop
    cases h
    exact ⟨[0x90], rest, rfl, rfl, .nop⟩
  split at h
  · cases h
  rename_i hlead
  split at h
  · cases h
  rename_i hwide
  split at h
  · cases h
  · exact forms_of_ofOpcode ⟨Decidable.not_not.mp hlead, hwide⟩ h

theorem decode_wide {lead : UInt8} (hlead : IsWide lead) (op : UInt8) (rest : List UInt8) :
    decode (lead :: op :: rest) = .ofOpcode lead op rest := by
  obtain ⟨htop, hwide⟩ := hlead
  have hret : lead ≠ 0xC3 := by
    intro h
    rw [h] at htop
    exact absurd htop (by decide)
  have hnop : lead ≠ 0x90 := by
    intro h
    rw [h] at htop
    exact absurd htop (by decide)
  rw [decode, if_neg hret, if_neg hnop, if_neg (fun h => h htop), if_neg hwide]

namespace Forms

variable {bytes : List UInt8} {i : Instruction}

theorem decode_append (h : Forms bytes i) (rest : List UInt8) :
    decode (bytes ++ rest) = .instruction i bytes.length := by
  cases h with
  | ret => rfl
  | nop => rfl
  | @movLong lead op imm hlead hop himm =>
    have hlen : ¬ (imm ++ rest).length < 8 := by
      rw [List.length_append]
      omega
    rw [List.cons_append, List.cons_append, decode_wide hlead, Decoded.ofOpcode.eq_def,
      if_pos hop, if_neg hlen, List.take_left' himm, List.length_cons, List.length_cons, himm]
  | @movShort lead b imm hlead hb hselector himm =>
    have hlen : ¬ (imm ++ rest).length < 4 := by
      rw [List.length_append]
      omega
    rw [List.cons_append, List.cons_append, List.cons_append, decode_wide hlead,
      Decoded.ofOpcode_operands (by decide) (by decide) hb, Decoded.ofOperands.eq_def, if_pos rfl,
      if_neg (fun h => h hselector), if_neg hlen, List.take_left' himm]
    simp only [List.length_cons, himm]
  | @aluImmediate lead op b imm alu hlead hb hselector himm =>
    rw [List.cons_append, List.cons_append, List.cons_append, decode_wide hlead]
    rcases himm with ⟨rfl, himm⟩ | ⟨rfl, himm⟩
    · obtain ⟨v, rfl⟩ := List.length_eq_one_iff.mp himm
      rw [Decoded.ofOpcode_operands (by decide) (by decide) hb, Decoded.ofOperands.eq_def, if_neg (by decide),
        if_pos rfl]
      simp only [List.cons_append, Decoded.aluImmediate, hselector]
      rfl
    · have hlen : ¬ (imm ++ rest).length < 4 := by
        rw [List.length_append]
        omega
      rw [Decoded.ofOpcode_operands (by decide) (by decide) hb, Decoded.ofOperands.eq_def, if_neg (by decide),
        if_neg (by decide), if_pos rfl, if_neg hlen, List.take_left' himm]
      simp only [Decoded.aluImmediate, hselector, List.length_cons, himm]
  | between hlead hb hform =>
    rw [List.cons_append, List.cons_append, List.cons_append, decode_wide hlead]
    cases hform with
    | mov => exact Decoded.ofOpcode_operands (by decide) (by decide) hb rest
    | add => exact Decoded.ofOpcode_operands (by decide) (by decide) hb rest
    | sub => exact Decoded.ofOpcode_operands (by decide) (by decide) hb rest

theorem length (h : Forms bytes i) : 0 < bytes.length ∧ bytes.length ≤ longest := by
  cases h with
  | ret => decide
  | nop => decide
  | movLong _ _ himm => simp [longest, himm]
  | movShort _ _ _ himm => simp [longest, himm]
  | aluImmediate _ _ _ himm =>
    rcases himm with ⟨-, himm⟩ | ⟨-, himm⟩
    · simp [longest, himm]
    · simp [longest, himm]
  | between _ _ _ => simp [longest]

theorem eq_ret_iff (h : Forms bytes i) : i = .ret ↔ bytes = [0xC3] := by
  cases h with
  | ret => simp
  | nop => simp
  | movLong _ _ _ => simp
  | movShort _ _ _ _ => simp
  | aluImmediate _ _ _ _ => simp
  | between _ _ hform => cases hform <;> simp

end Forms

/-- The immediate that an instruction takes its source from. -/
def immediate? : Instruction → Option Int64
  | mov _ (.imm v) => some v
  | alu _ _ (.imm v) => some v
  | _ => none

theorem Forms.immediate {bytes : List UInt8} {i : Instruction} {v : Int64} (h : Forms bytes i)
    (hv : i.immediate? = some v) :
    ∃ front imm, bytes = front ++ imm ∧ (imm.length = 1 ∨ imm.length = 4 ∨ imm.length = 8) ∧
    v = ofImmediate imm := by
  cases h with
  | ret => cases hv
  | nop => cases hv
  | @movLong lead op imm _ _ himm =>
    cases hv
    exact ⟨[lead, op], imm, rfl, .inr (.inr himm), rfl⟩
  | @movShort lead b imm _ _ _ himm =>
    cases hv
    exact ⟨[lead, 0xC7, b], imm, rfl, .inr (.inl himm), rfl⟩
  | @aluImmediate lead op b imm _ _ _ _ himm =>
    cases hv
    refine ⟨[lead, op, b], imm, rfl, ?_, rfl⟩
    rcases himm with ⟨-, himm⟩ | ⟨-, himm⟩
    · exact .inl himm
    · exact .inr (.inl himm)
  | between _ _ hform => cases hform <;> cases hv

end Instruction

end StepLang
