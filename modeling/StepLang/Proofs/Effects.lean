import StepLang.Proofs.Listings

/-!
# What a command does

Wherever the bytes of a command stand in the memory, a step executes it. The words of the command tell what
changes: the destination gets the value of the source, or its sum or difference with it, and only a sum or a
difference sets flags. A command on a register and a source has no bytes for one of four causes, and these
are told by its words too.
-/

namespace StepLang

theorem Literal.toUInt64_ofInt (z : Int) : (Int64.ofInt z).toUInt64 = UInt64.ofInt z := by
  apply UInt64.toNat_inj.mp
  change (BitVec.ofInt 64 z).toNat = (UInt64.ofNat (z % 18446744073709551616).toNat).toNat
  rw [BitVec.toNat_ofInt, UInt64.toNat_ofNat_of_lt' (by simp; omega)]
  rfl

namespace Machine

/-- The word that a source stands for: what a register holds, or the two's complement of an integer. -/
inductive Supplies (m : Machine) : Text → UInt64 → Prop where
  | register {word : Text} {r : Register}
      (h : Register.ofName? word = some r) : Supplies m word (m.regs.get r)
  | integer {word : Text} {z : Int} (hname : Register.ofName? word = none)
      (h : Literal.marked? 64 word = .ok z) :
      Supplies m word (.ofInt z)

/-- The register holds the value, and every other register what it held before. -/
structure Sets (m after : Machine) (r : Register) (v : UInt64) : Prop where
  target : after.regs.get r = v
  others : ∀ q, q ≠ r → after.regs.get q = m.regs.get q

theorem sets_of_regs {m after : Machine} {r : Register} {v : UInt64} (h : after.regs = (m.setReg r v).regs) :
    m.Sets after r v := by
  constructor
  · rw [h, get_setReg, if_pos rfl]
  · intro q hq
    rw [h, get_setReg, if_neg hq]

end Machine

namespace Command

theorem Denotes.supplies {word : Text} {operand : Operand} (h : Denotes word operand) (m : Machine) :
    m.Supplies word (m.operandValue operand) := by
  cases h with
  | register hname => exact .register hname
  | integer hname hvalue =>
    rw [Machine.operandValue, Literal.toUInt64_ofInt]
    exact .integer hname hvalue

theorem integer_of_source {word : Text} {operand : Operand} (h : source word = .ok operand)
    (hname : Register.ofName? word = none) : ∃ z, Literal.marked? 64 word = .ok z ∧
    operand = .imm (.ofInt z) := by
  cases source_eq_ok_iff.mp h with
  | register hr =>
    rw [hr] at hname
    cases hname
  | integer _ hvalue => exact ⟨_, hvalue, rfl⟩

/-- What the words of a command say about the registers and flags before and after it. -/
inductive Performs (m after : Machine) : Command → Prop where
  | ret (hregs : after.regs = m.regs) (hflags : after.flags = m.flags) : Performs m after ⟨"RET", []⟩
  | nop (hregs : after.regs = m.regs) (hflags : after.flags = m.flags) : Performs m after ⟨"NOP", []⟩
  | mov {dst src : Text} {r : Register} {v : UInt64} (hdst : Register.ofName? dst = some r)
      (hsrc : m.Supplies src v)
      (hregs : m.Sets after r v) (hflags : after.flags = m.flags) : Performs m after ⟨"MOV", [dst, src]⟩
  | add {dst src : Text} {r : Register} {v : UInt64} (hdst : Register.ofName? dst = some r)
      (hsrc : m.Supplies src v)
      (hregs : m.Sets after r (m.regs.get r + v))
      (hflags : after.flags = (AluOp.add.compute (m.regs.get r) v).2) :
      Performs m after ⟨"ADD", [dst, src]⟩
  | sub {dst src : Text} {r : Register} {v : UInt64} (hdst : Register.ofName? dst = some r)
      (hsrc : m.Supplies src v)
      (hregs : m.Sets after r (m.regs.get r - v))
      (hflags : after.flags = (AluOp.sub.compute (m.regs.get r) v).2) :
      Performs m after ⟨"SUB", [dst, src]⟩

theorem performs_execute {c : Command} {i : Instruction} (h : c.Spells i) (m : Machine) (rip : Int)
    (steps : Int64) :
    c.Performs m ({ m with rip := rip, steps := steps }.execute i) := by
  cases h with
  | ret => exact .ret rfl rfl
  | nop => exact .nop rfl rfl
  | @binary mnemonic dst src form r operand hform hdst hsrc =>
    have hsupplies := hsrc.supplies m
    cases hform with
    | mov => exact .mov hdst hsupplies (Machine.sets_of_regs rfl) rfl
    | add => exact .add hdst hsupplies (Machine.sets_of_regs rfl) rfl
    | sub => exact .sub hdst hsupplies (Machine.sets_of_regs rfl) rfl

theorem Names.ne_ret {mnemonic : Text} {form : Register → Operand → Instruction} (h : Names mnemonic form) :
    mnemonic ≠ "RET" ∧ ∀ r operand, form r operand ≠ .ret := by
  cases h with
  | mov => exact ⟨by decide, by simp⟩
  | add => exact ⟨by decide, by simp⟩
  | sub => exact ⟨by decide, by simp⟩

theorem Spells.eq_ret_iff {c : Command} {i : Instruction} (h : c.Spells i) :
    i = .ret ↔ c.mnemonic = "RET" := by
  cases h with
  | ret => exact ⟨fun _ => rfl, fun _ => rfl⟩
  | nop => decide
  | binary hform _ _ =>
    obtain ⟨hmnemonic, hi⟩ := hform.ne_ret
    exact ⟨fun h => absurd h (hi _ _), fun h => absurd h hmnemonic⟩

/-- The causes for which a command on a register and a source has no bytes. -/
inductive Refused : Command → Prop where
  | count {c : Command} (h : c.operands.length ≠ 2) : Refused c
  | destination {mnemonic dst src : Text} (h : Register.ofName? dst = none) : Refused ⟨mnemonic, [dst, src]⟩
  | source {mnemonic dst src : Text} (hname : Register.ofName? src = none)
      (h : ∀ z, Literal.marked? 64 src ≠ .ok z) :
      Refused ⟨mnemonic, [dst, src]⟩
  | range {mnemonic dst src : Text} {z : Int} (hmnemonic : mnemonic = "ADD" ∨ mnemonic = "SUB")
      (hname : Register.ofName? src = none) (h : Literal.marked? 64 src = .ok z)
      (hz : z < -0x80000000 ∨ 0x7FFFFFFF < z) : Refused ⟨mnemonic, [dst, src]⟩

/-- Reading loses nothing of an integer that it accepts, so the range can be told from the integer. -/
theorem short_ofInt_iff {word : Text} {z : Int} (h : Literal.marked? 64 word = .ok z) :
    (Operand.imm (.ofInt z)).Short ↔ ¬ (z < -0x80000000 ∨ 0x7FFFFFFF < z) := by
  have hlimit : (Literal.signedLimit 64 : Int) = 0x8000000000000000 := rfl
  obtain ⟨hlo, hhi⟩ := Literal.signed_range h
  have hvalue : (Int64.ofInt z).toInt = z := Int64.toInt_ofInt_of_le (by omega) (by omega)
  rw [Operand.Short, hvalue]
  omega

theorem Names.exists_encode_iff {mnemonic : Text} {form : Register → Operand → Instruction}
    (h : Names mnemonic form) (r : Register) (operand : Operand) :
    (∃ bytes, (form r operand).encode? = some bytes) ↔
    ((mnemonic = "ADD" ∨ mnemonic = "SUB") → operand.Short) := by
  cases h with
  | mov =>
    have hmov : ¬ (("MOV" : Text) = "ADD" ∨ ("MOV" : Text) = "SUB") := by decide
    exact ⟨fun _ h => absurd h hmov, fun _ => Instruction.exists_encode_mov r operand⟩
  | add => exact Instruction.exists_encode_alu_iff.trans ⟨fun h _ => h, fun h => h (.inl rfl)⟩
  | sub => exact Instruction.exists_encode_alu_iff.trans ⟨fun h _ => h, fun h => h (.inr rfl)⟩

theorem instruction_isOk_iff {c : Command} {form : Register → Operand → Instruction}
    (h : Names c.mnemonic form) :
    (∃ content, c.instruction = .ok content) ↔ ∃ dst src r operand, c.operands = [dst, src] ∧
      Register.ofName? dst = some r ∧ source src = .ok operand ∧
      ((c.mnemonic = "ADD" ∨ c.mnemonic = "SUB") → operand.Short) := by
  have hbinary : c.instruction = c.binary form := instruction_of_names h c.operands
  rw [hbinary]
  constructor
  · rintro ⟨content, hcontent⟩
    obtain ⟨dst, src, r, operand, bytes, hoperands, hr, hoperand, hbytes, -⟩ := binary_eq_ok_iff.mp hcontent
    exact ⟨dst, src, r, operand, hoperands, hr, hoperand, (h.exists_encode_iff r operand).mp ⟨bytes, hbytes⟩⟩
  · rintro ⟨dst, src, r, operand, hoperands, hr, hoperand, hshort⟩
    obtain ⟨bytes, hbytes⟩ := (h.exists_encode_iff r operand).mpr hshort
    exact ⟨_, binary_eq_ok_iff.mpr ⟨dst, src, r, operand, bytes, hoperands, hr, hoperand, hbytes, rfl⟩⟩

theorem refused_of_error {c : Command} {form : Register → Operand → Instruction} {e : LineFault}
    (hform : Names c.mnemonic form) (h : c.instruction = .error e) : c.Refused := by
  have hnot : ¬ ∃ content, c.instruction = .ok content := by
    rintro ⟨content, hcontent⟩
    rw [h] at hcontent
    cases hcontent
  rw [instruction_isOk_iff hform] at hnot
  obtain ⟨mnemonic, operands⟩ := c
  by_cases hcount : operands.length = 2
  · obtain ⟨dst, src, rfl⟩ := List.length_eq_two.mp hcount
    cases hdst : Register.ofName? dst with
    | none => exact .destination hdst
    | some r =>
      cases hname : Register.ofName? src with
      | some q =>
        have hsource : source src = .ok (.reg q) := source_eq_ok_iff.mpr (.register hname)
        exact absurd ⟨dst, src, r, .reg q, rfl, hdst, hsource, fun _ => trivial⟩ hnot
      | none =>
        by_cases hvalue : ∃ z, Literal.marked? 64 src = .ok z
        · obtain ⟨z, hvalue⟩ := hvalue
          have hsource : source src = .ok (.imm (.ofInt z)) := source_eq_ok_iff.mpr (.integer hname hvalue)
          have hshort : ¬ ((mnemonic = "ADD" ∨ mnemonic = "SUB") → (Operand.imm (.ofInt z)).Short) :=
            fun hshort => hnot ⟨dst, src, r, _, rfl, hdst, hsource, hshort⟩
          rw [Classical.not_imp, short_ofInt_iff hvalue, Classical.not_not] at hshort
          exact .range hshort.1 hname hvalue hshort.2
        · exact .source hname fun z hz => hvalue ⟨z, hz⟩
  · exact .count hcount

theorem error_of_refused {c : Command} {form : Register → Operand → Instruction}
    (hform : Names c.mnemonic form) (h : c.Refused) : ∃ e, c.instruction = .error e := by
  cases hinstruction : c.instruction with
  | error e => exact ⟨e, rfl⟩
  | ok content =>
    obtain ⟨dst, src, r, operand, hoperands, hr, hoperand, hshort⟩ :=
      (instruction_isOk_iff hform).mp ⟨content, hinstruction⟩
    cases h with
    | count h => exact absurd (congrArg List.length hoperands) h
    | destination h =>
      cases hoperands
      rw [hr] at h
      cases h
    | source hname h =>
      cases hoperands
      obtain ⟨z, hz, -⟩ := integer_of_source hoperand hname
      exact absurd hz (h z)
    | range hmnemonic hname h hz =>
      cases hoperands
      obtain ⟨z', hz', rfl⟩ := integer_of_source hoperand hname
      rw [h] at hz'
      cases hz'
      exact absurd hz ((short_ofInt_iff h).mp (hshort hmnemonic))

end Command

/-- Wherever the bytes of a command stand in the memory of a machine that runs, a step succeeds, moves
behind them and does what the words of the command say; only a return halts the machine. A command on a
register and a source is refused exactly for one of the four causes. -/
theorem step_performs (c : Command) :
    (∀ content, c.instruction = .ok content → ∀ (m : Machine) (rest : List UInt8),
      m.At (content.bytes ++ rest) → ∃ after x, m.step = (after, .ok x) ∧
      after.rip = m.rip + content.bytes.length ∧ after.steps = m.steps + 1 ∧
        after.memory = m.memory ∧ (after.halted = true ↔ c.mnemonic = "RET") ∧ c.Performs m after) ∧
    ∀ form, Command.Names c.mnemonic form → ((∃ e, c.instruction = .error e) ↔ c.Refused) := by
  constructor
  · intro content hcontent m rest hat
    obtain ⟨i, bytes, hspells, hbytes, rfl⟩ := Command.spells_of_instruction hcontent
    refine ⟨_, _, Machine.step_encoded hat hbytes, ?_, ?_, ?_, ?_, Command.performs_execute hspells m _ _⟩
    · rw [Machine.rip_execute]
    · rw [Machine.steps_execute]
    · rw [Machine.memory_execute]
    · rw [Machine.halted_execute, hat.running, Bool.false_or, decide_eq_true_iff, hspells.eq_ret_iff]
  · intro form hform
    constructor
    · rintro ⟨e, he⟩
      exact Command.refused_of_error hform he
    · intro hrefused
      exact Command.error_of_refused hform hrefused

/-- The least immediate of four bytes, on one of the upper registers, behind a byte that is no instruction;
its negative is out of range. -/
theorem step_performs_least :
    ∃ content after x, Command.instruction ⟨"ADD", ["R13", "-0x8000_0000"]⟩ = .ok content ∧
      Machine.step ⟨.replicate 16 5, 1, ⟨true, true, true, true⟩, false, 41,
        #[0xCC, 0x49, 0x81, 0xC5, 0x00, 0x00, 0x00, 0x80, 0x06]⟩ = (after, .ok x) ∧
      after.rip = 8 ∧ after.steps = 42 ∧ after.halted = false ∧ after.regs.get 13 = 0xFFFFFFFF80000005 ∧
      after.regs.get 5 = 5 ∧ after.flags = ⟨false, true, false, false⟩ ∧
      ∃ e, Command.instruction ⟨"SUB", ["r13", "0x80000000"]⟩ = .error e := by
  obtain ⟨content, hcontent, hbytes⟩ : ∃ content,
    Command.instruction ⟨"ADD", ["R13", "-0x8000_0000"]⟩ = .ok content ∧
      content.bytes = [0x49, 0x81, 0xC5, 0x00, 0x00, 0x00, 0x80] := ⟨_, rfl, rfl⟩
  have hat : Machine.At ⟨.replicate 16 5, 1, ⟨true, true, true, true⟩, false, 41,
      #[0xCC, 0x49, 0x81, 0xC5, 0x00, 0x00, 0x00, 0x80, 0x06]⟩ (content.bytes ++ [0x06]) := by
    rw [hbytes]
    exact ⟨rfl, [0xCC], rfl, rfl⟩
  obtain ⟨after, x, hstep, hrip, hsteps, -, hhalted, hperforms⟩ :=
    (step_performs _).1 content hcontent _ _ hat
  have hvalue : Literal.marked? 64 "-0x8000_0000" = .ok (-0x80000000) := rfl
  have hrefused : Command.Refused ⟨"SUB", ["r13", "0x80000000"]⟩ :=
    .range (.inr rfl) rfl (rfl : Literal.marked? 64 "0x80000000" = .ok 0x80000000) (by decide)
  refine ⟨content, after, x, hcontent, hstep, by rw [hrip, hbytes]; rfl, hsteps, ?_, ?_⟩
  · rw [Bool.eq_false_iff, ne_eq, hhalted]
    decide
  · cases hperforms with
    | @add _ _ r v hdst hsrc hregs hflags =>
      have hr : r = 13 := (Option.some.inj hdst).symm
      have hv : v = .ofInt (-0x80000000) := by
        cases hsrc with
        | register h => cases h
        | integer _ h =>
          rw [hvalue] at h
          cases h
          rfl
      subst hr hv
      exact ⟨hregs.target, hregs.others 5 (by decide), hflags, ((step_performs _).2 _ .sub).mpr hrefused⟩

end StepLang
