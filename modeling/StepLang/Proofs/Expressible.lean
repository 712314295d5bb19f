import StepLang.Proofs.Listings
import StepLang.Proofs.Running

/-!
# The machine executes nothing that cannot be written

Decoding accepts more bytes than encoding gives: leading bytes with bits that no operand uses, and
immediates in a longer form than they need. But what it reads from them is always an instruction that can be
encoded, since an immediate of an addition or subtraction has at most four bytes. So every instruction that
is executed has a line of text.
-/

namespace StepLang

namespace Instruction

theorem Forms.exists_encode {bytes : List UInt8} {i : Instruction} (h : Forms bytes i) :
    ∃ chunk, i.encode? = some chunk := by
  cases h with
  | ret => exact ⟨_, rfl⟩
  | nop => exact ⟨_, rfl⟩
  | movLong _ _ _ => exact exists_encode_mov _ _
  | movShort _ _ _ _ => exact exists_encode_mov _ _
  | @aluImmediate lead op b imm alu _ _ _ himm =>
    have hlength : imm.length ≤ 4 := by omega
    have hfits : Encoding.fits 4 (Encoding.ofImmediate imm) = true :=
      Encoding.fits_mono hlength (Encoding.fits_ofImmediate (by omega))
    exact exists_encode_alu_iff.mpr (Encoding.fits_four.mp hfits)
  | between _ _ hform =>
    cases hform with
    | mov => exact exists_encode_mov _ _
    | add => exact exists_encode_alu_iff.mpr trivial
    | sub => exact exists_encode_alu_iff.mpr trivial

theorem instruction_statement {i : Instruction} {bytes : List UInt8} (h : i.encode? = some bytes) :
    Command.instruction ⟨i.statement.op.upper, i.statement.operands⟩ = .ok (.code i bytes) :=
  (Command.content_eq_ok_iff.mp (content_statement h)).instruction_eq

theorem exists_line {i : Instruction} {bytes : List UInt8} (h : i.encode? = some bytes) :
    ∃ t c, Text.newline ∉ t ∧ Line.parse t = .ok ⟨[], some c⟩ ∧ c.instruction = .ok (.code i bytes) :=
  ⟨i.line, _, Statement.newline_notMem_indented i.readable_statement,
    Statement.parse_indented i.readable_statement, instruction_statement h⟩

end Instruction

namespace Machine

/-- The registers, the flags and whether it is halted are the same. -/
structure Alike (m n : Machine) : Prop where
  regs : m.regs = n.regs
  flags : m.flags = n.flags
  halted : m.halted = n.halted

theorem Alike.execute {m n : Machine} (h : m.Alike n) (i : Instruction) :
    (m.execute i).Alike (n.execute i) := by
  obtain ⟨hregs, hflags, hhalted⟩ := h
  have hvalue : ∀ src, m.operandValue src = n.operandValue src := by
    intro src
    cases src with
    | reg r => rw [operandValue, operandValue, hregs]
    | imm v => rfl
  cases i with
  | ret => exact ⟨hregs, hflags, rfl⟩
  | nop => exact ⟨hregs, hflags, hhalted⟩
  | mov dst src =>
    refine ⟨?_, hflags, hhalted⟩
    simp only [Machine.execute, setReg, hregs, hvalue]
  | alu op dst src =>
    refine ⟨?_, ?_, hhalted⟩
    · simp only [Machine.execute, setReg, hregs, hvalue]
    · simp only [Machine.execute, hregs, hvalue]

theorem At.alike_step {m n : Machine} {i : Instruction} {bytes rest : List UInt8} (h : n.At (bytes ++ rest))
    (hbytes : i.encode? = some bytes) (halike : n.Alike m) (rip : Int) (steps : Int64) :
    ∃ last y, n.step = (last, .ok y) ∧ last.Alike ({ m with rip := rip, steps := steps }.execute i) := by
  have hmoved : Alike { n with rip := n.rip + bytes.length, steps := n.steps + 1 }
      { m with rip := rip, steps := steps } := ⟨halike.regs, halike.flags, halike.halted⟩
  exact ⟨_, _, step_encoded h hbytes, hmoved.execute i⟩

end Machine

/-- Whatever bytes a step executes, there is a line of text whose encoding does the same: the machine can be
loaded with it, and from equal registers and flags a step over it gives equal registers and flags, and halts
the machine if the other step does. -/
theorem step_expressible {m after : Machine} {x : Executed} (h : m.step = (after, .ok x)) :
    ∃ t c i bytes, Text.newline ∉ t ∧ Line.parse t = .ok ⟨[], some c⟩ ∧ c.instruction = .ok (.code i bytes) ∧
      (∃ loaded, m.load bytes 0 = .ok loaded ∧ loaded.At bytes ∧ loaded.regs = m.regs ∧
        loaded.flags = m.flags) ∧
      ∀ (n : Machine) (rest : List UInt8), n.At (bytes ++ rest) → n.regs = m.regs → n.flags = m.flags →
        ∃ last y, n.step = (last, .ok y) ∧ last.regs = after.regs ∧ last.flags = after.flags ∧
          last.halted = after.halted := by
  obtain ⟨i, back, hforms, hat, -, rfl⟩ := Machine.step_executed h
  obtain ⟨bytes, hbytes⟩ := hforms.exists_encode
  obtain ⟨t, c, hnewline, hparse, hinstruction⟩ := Instruction.exists_line hbytes
  refine ⟨t, c, i, bytes, hnewline, hparse, hinstruction, ?_, ?_⟩
  · have hpos := (Instruction.length_encode hbytes).1
    refine ⟨_, Machine.load_eq_ok_iff.mpr ⟨⟨by omega, by omega⟩, rfl⟩, ?_, rfl, rfl⟩
    exact ⟨rfl, [], rfl, rfl⟩
  · intro n rest hn hregs hflags
    have halike : n.Alike m := ⟨hregs, hflags, by rw [hn.running, hat.running]⟩
    obtain ⟨last, y, hstep, hlast⟩ := hn.alike_step hbytes halike (m.rip + x.code.length) (m.steps + 1)
    exact ⟨last, y, hstep, hlast.regs, hlast.flags, hlast.halted⟩

/-- A small immediate in the longer form, behind a leading byte with two bits that nothing uses. -/
theorem step_expressible_loose :
    ∃ m after x t c i bytes loaded last y,
      Machine.initial.load [0x4E, 0x81, 0xE8, 0x05, 0x00, 0x00, 0x00] 0 = .ok m ∧ m.step = (after, .ok x) ∧
      Line.parse t = .ok ⟨[], some c⟩ ∧ c.instruction = .ok (.code i bytes) ∧ m.load bytes 0 = .ok loaded ∧
      loaded.step = (last, .ok y) ∧ last.rax = -5 ∧ last.flags = ⟨false, true, true, false⟩ ∧
      last.halted = false := by
  obtain ⟨m, hload⟩ : ∃ m, Machine.initial.load [0x4E, 0x81, 0xE8, 0x05, 0x00, 0x00, 0x00] 0 = .ok m :=
    ⟨_, rfl⟩
  obtain ⟨after, x, hstep, hrax, hflags, hhalted⟩ : ∃ after x, m.step = (after, .ok x) ∧ after.rax = -5 ∧
      after.flags = ⟨false, true, true, false⟩ ∧ after.halted = false := by
    cases hload
    exact ⟨_, _, rfl, by decide, by decide, rfl⟩
  obtain ⟨t, c, i, bytes, -, hparse, hinstruction, ⟨loaded, hloaded, hat, hregs, hsame⟩, hall⟩ :=
    step_expressible hstep
  rw [← List.append_nil bytes] at hat
  obtain ⟨last, y, hlast, hlastRegs, hlastFlags, hlastHalted⟩ := hall loaded [] hat hregs hsame
  refine ⟨m, after, x, t, c, i, bytes, loaded, last, y, hload, hstep, hparse, hinstruction,
    hloaded, hlast, ?_, hlastFlags.trans hflags, hlastHalted.trans hhalted⟩
  rw [Machine.rax, hlastRegs]
  exact hrax

end StepLang
