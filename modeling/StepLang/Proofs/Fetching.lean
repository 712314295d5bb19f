import StepLang.Proofs.Running

/-!
# Steps byte by byte

An instruction is fetched piece by piece: each fetch moves the instruction pointer on, and a register or a
flag is written behind the last of them. So a fetch or a check that fails finds nothing written. Step by
step this is what decoding the bytes ahead and executing the instruction does.
-/

namespace StepLang

namespace Decoded

/-- A window of bytes that is wide enough shows an immediate, or that it breaks off. -/
theorem immediate_take {width n : Nat} (h : width ≤ n) (rest : List UInt8) :
    ((rest.take n).length < width ↔ rest.length < width) ∧ (rest.take n).take width = rest.take width := by
  constructor
  · rw [List.length_take]
    omega
  · rw [List.take_take, Nat.min_eq_left h]

theorem ofOperands_take (op : UInt8) (p : OperandPair) {n : Nat} (hn : 4 ≤ n) (rest : List UInt8) :
    ofOperands op p (rest.take n) = ofOperands op p rest := by
  obtain ⟨hlength, himm⟩ := immediate_take hn rest
  obtain ⟨k, rfl⟩ : ∃ k, n = k + 1 := ⟨n - 1, by omega⟩
  unfold ofOperands
  simp only [hlength, himm]
  cases rest with
  | nil => rfl
  | cons b rest => rfl

theorem ofOpcode_take (lead op : UInt8) {n : Nat} (hn : 8 ≤ n) (rest : List UInt8) :
    ofOpcode lead op (rest.take n) = ofOpcode lead op rest := by
  obtain ⟨hlength, himm⟩ := immediate_take hn rest
  obtain ⟨k, rfl⟩ : ∃ k, n = k + 1 := ⟨n - 1, by omega⟩
  unfold ofOpcode
  simp only [hlength, himm]
  cases rest with
  | nil => rfl
  | cons b rest => simp only [List.take_succ_cons, ofOperands_take op _ (show 4 ≤ k by omega)]

end Decoded

theorem Instruction.decode_take (bs : List UInt8) : decode (bs.take longest) = decode bs := by
  match bs with
  | [] => rfl
  | [op] => rfl
  | op :: next :: rest =>
    have hrest := Decoded.ofOpcode_take op next (Nat.le_refl 8) rest
    unfold decode
    simp only [longest, List.take_succ_cons, hrest]

namespace Machine

/-- What reads and changes a machine, and leaves it as it stands where it fails. -/
abbrev Action := EStateM DecodeFault Machine

def passed (m : Machine) (n : Nat) : Machine := { m with rip := m.rip + n }

def counted (m : Machine) : Machine := { m with steps := m.steps + 1 }

def fetch : Action UInt8 := fun m =>
  if m.rip < 0 then .error .outside m
  else
    match m.memory[m.rip.toNat]? with
    | none => .error .outside m
    | some b => .ok b (m.passed 1)

def fetchMany (n : Nat) : Action (List UInt8) := fun m =>
  if m.memory.size < m.rip + n then .error .truncated m
  else .ok ((m.memory.toList.drop m.rip.toNat).take n) (m.passed n)

def fetchOne : Action (List UInt8) := do
  let b ← fetch
  pure [b]

def fetchOperands (lead : UInt8) : Action OperandPair := do
  let b ← fetch
  if b.toNat / 64 ≠ 3 then throw .memoryOperand else pure (.ofByte lead b)

def write (dst : Register) (v : UInt64) : Action Unit := modify (·.setReg dst v)

def combine (op : AluOp) (dst : Register) (v : UInt64) : Action Unit := modify fun m =>
  let (result, flags) := op.compute (m.regs.get dst) v
  { m.setReg dst result with flags := flags }

def moveWide (lead op : UInt8) : Action Unit := do
  let imm ← fetchMany 8
  write (.ofBits lead.toNat op.toNat) (Encoding.ofImmediate imm).toUInt64

def moveImmediate (lead : UInt8) : Action Unit := do
  let p ← fetchOperands lead
  if p.selector ≠ 0 then throw (.movSelector p.selector)
  else do
    let imm ← fetchMany 4
    write p.rm (Encoding.ofImmediate imm).toUInt64

/-- The selector is looked at behind the immediate. -/
def combineImmediate (lead : UInt8) (immediate : Action (List UInt8)) : Action Unit := do
  let p ← fetchOperands lead
  let imm ← immediate
  match AluOp.ofSelector? p.selector with
  | some op => combine op p.rm (Encoding.ofImmediate imm).toUInt64
  | none => throw (.aluSelector p.selector)

def fromRegister (lead : UInt8) (effect : Register → UInt64 → Action Unit) : Action Unit := do
  let p ← fetchOperands lead
  let m ← get
  effect p.rm (m.regs.get p.reg)

def fetchOpcode (lead op : UInt8) : Action Unit :=
  if op.toNat / 8 = 0xB8 / 8 then moveWide lead op
  else if op = 0xC7 then moveImmediate lead
  else if op = 0x83 then combineImmediate lead fetchOne
  else if op = 0x81 then combineImmediate lead (fetchMany 4)
  else if op = 0x89 then fromRegister lead write
  else if op = 0x01 then fromRegister lead (combine .add)
  else if op = 0x29 then fromRegister lead (combine .sub)
  else throw (.opcodeAfter op lead)

def fetchInstruction : Action Unit := do
  let op ← fetch
  if op = 0xC3 then modify fun m => { m with halted := true }
  else if op = 0x90 then pure ()
  else if op.toNat / 16 ≠ 4 then throw (.opcode op)
  else if op.toNat / 8 % 2 = 0 then throw (.notWide op)
  else do
    let next ← fetch
    fetchOpcode op next

/-- A step that fetches byte by byte; what was fetched is recorded when the instruction has succeeded. -/
def fetchStep (m : Machine) : Machine × Except RunError Executed :=
  if m.halted then (m, .error .halted)
  else
    match fetchInstruction m with
    | .error cause stopped =>
      ({ stopped with halted := true }, .error (.fault ⟨m.rip, stopped.rip, stopped.memory.size, cause⟩))
    | .ok () after =>
      (after.counted,
        .ok ⟨m.rip, (after.memory.toList.drop m.rip.toNat).take (after.rip - m.rip).toNat, after.rax⟩)

section Actions
variable {α β : Type} {m after : Machine} {x : Action α} {k : α → Action β}

theorem bind_ok {a : α} (h : x m = .ok a after) : (x >>= k) m = k a after := by
  change EStateM.bind x k m = k a after
  rw [EStateM.bind, h]

theorem bind_error {cause : DecodeFault} (h : x m = .error cause after) :
    (x >>= k) m = .error cause after := by
  change EStateM.bind x k m = .error cause after
  rw [EStateM.bind, h]

end Actions

@[simp] theorem passed_zero (m : Machine) : m.passed 0 = m := by
  simp [passed]

theorem passed_passed (m : Machine) (n k : Nat) : (m.passed n).passed k = m.passed (n + k) := by
  simp only [passed, Int.add_assoc, Int.natCast_add]

section Fetches
variable {m : Machine} {n : Nat} {rest : List UInt8}

theorem At.passed {bytes : List UInt8} (h : m.At (bytes ++ rest)) : (m.passed bytes.length).At rest := by
  obtain ⟨front, hmemory, hrip⟩ := h.inside
  refine ⟨h.running, front ++ bytes, ?_, ?_⟩
  · rw [List.append_assoc]
    exact hmemory
  · rw [Machine.passed, hrip, List.length_append, Int.natCast_add]

theorem At.bounds (h : m.At rest) : 0 ≤ m.rip ∧ (m.memory.size : Int) = m.rip + rest.length := by
  obtain ⟨front, hmemory, hrip⟩ := h.inside
  rw [← Array.length_toList, hmemory, List.length_append]
  omega

theorem At.fetch_nil (h : m.At []) : fetch m = .error .outside m := by
  obtain ⟨hnonneg, hsize⟩ := h.bounds
  rw [List.length_nil] at hsize
  have hnone : m.memory[m.rip.toNat]? = none := Array.getElem?_eq_none (by omega)
  rw [fetch, if_neg (by omega), hnone]

theorem At.fetch_cons {b : UInt8} (h : (m.passed n).At (b :: rest)) :
    fetch (m.passed n) = .ok b (m.passed (n + 1)) ∧ (m.passed (n + 1)).At rest := by
  obtain ⟨front, hmemory, hrip⟩ := h.inside
  have hplace : (m.passed n).rip.toNat = front.length := by omega
  have hbyte : (m.passed n).memory[(m.passed n).rip.toNat]? = some b := by
    rw [hplace, ← Array.getElem?_toList, hmemory, List.getElem?_append_right (Nat.le_refl _), Nat.sub_self]
    rfl
  have hat := @At.passed (m.passed n) rest [b] h
  rw [List.length_singleton, passed_passed] at hat
  refine ⟨?_, hat⟩
  rw [fetch, if_neg (by omega), hbyte]
  exact congrArg (EStateM.Result.ok b) (passed_passed m n 1)

theorem At.fetchMany_short {k : Nat} (h : m.At rest) (hk : rest.length < k) :
    fetchMany k m = .error .truncated m := by
  obtain ⟨-, hsize⟩ := h.bounds
  rw [fetchMany, if_pos (by omega)]

theorem At.fetchMany_long {k : Nat} (h : m.At rest) (hk : k ≤ rest.length) :
    fetchMany k m = .ok (rest.take k) (m.passed k) := by
  obtain ⟨-, hsize⟩ := h.bounds
  obtain ⟨front, hmemory, hrip⟩ := h.inside
  have hplace : m.rip.toNat = front.length := by omega
  rw [fetchMany, if_neg (by omega), hmemory, hplace, List.drop_left]

end Fetches

/-- The machine that decoding leaves: behind what was consumed, or with the instruction executed. -/
def leaves (m : Machine) : Decoded → EStateM.Result DecodeFault Machine Unit
  | .fault cause consumed => .error cause (m.passed consumed)
  | .instruction i width => .ok () ((m.passed width).execute i)

section Decoding
variable {m : Machine} {n : Nat} {rest : List UInt8}

theorem At.fetchMany_bind {width : Nat} {k : List UInt8 → Action Unit} {d : List UInt8 → Decoded}
    (h : (m.passed n).At rest) (hk : ∀ imm, k imm (m.passed (n + width)) = m.leaves (d imm)) :
    (fetchMany width >>= k) (m.passed n) =
      m.leaves (if rest.length < width then .fault .truncated n else d (rest.take width)) := by
  by_cases hshort : rest.length < width
  · rw [if_pos hshort]
    exact bind_error (h.fetchMany_short hshort)
  · have hfetch := h.fetchMany_long (show width ≤ rest.length by omega)
    rw [passed_passed] at hfetch
    rw [if_neg hshort, bind_ok hfetch]
    exact hk _

theorem At.fetchOperands_bind {op : UInt8} {k : OperandPair → Action Unit} (lead : UInt8)
    (h : (m.passed 2).At rest) (hwide : op.toNat / 8 ≠ 0xB8 / 8) (htakes : Decoded.takesOperands op = true)
    (hk : ∀ p rest, (m.passed 3).At rest → k p (m.passed 3) = m.leaves (.ofOperands op p rest)) :
    (fetchOperands lead >>= k) (m.passed 2) = m.leaves (.ofOpcode lead op rest) := by
  unfold Decoded.ofOpcode
  rw [if_neg hwide, if_pos htakes]
  cases rest with
  | nil => exact bind_error (bind_error h.fetch_nil)
  | cons b rest =>
    obtain ⟨hfetch, hat⟩ := h.fetch_cons
    by_cases hmemory : b.toNat / 64 ≠ 3
    · have hfail : fetchOperands lead (m.passed 2) = .error .memoryOperand (m.passed 3) := by
        rw [fetchOperands, bind_ok hfetch, if_pos hmemory]
        rfl
      simp only [if_pos hmemory]
      exact bind_error hfail
    · have hpair : fetchOperands lead (m.passed 2) = .ok (.ofByte lead b) (m.passed 3) := by
        rw [fetchOperands, bind_ok hfetch, if_neg hmemory]
        rfl
      simp only [if_neg hmemory]
      rw [bind_ok hpair]
      exact hk _ _ hat

theorem combine_selected (p : OperandPair) (imm : List UInt8) (width : Nat) :
    (match AluOp.ofSelector? p.selector with
      | some op => combine op p.rm (Encoding.ofImmediate imm).toUInt64
      | none => throw (.aluSelector p.selector) : Action Unit) (m.passed width) =
        m.leaves (.aluImmediate p imm width) := by
  unfold Decoded.aluImmediate
  cases AluOp.ofSelector? p.selector with
  | none => rfl
  | some op => rfl

theorem At.moveImmediate_eq (lead : UInt8) (h : (m.passed 2).At rest) :
    moveImmediate lead (m.passed 2) = m.leaves (.ofOpcode lead 0xC7 rest) := by
  apply h.fetchOperands_bind lead (by decide) rfl
  intro p rest hat
  unfold Decoded.ofOperands
  rw [if_pos rfl]
  by_cases hselector : p.selector ≠ 0
  · rw [if_pos hselector, if_pos hselector]
    rfl
  · rw [if_neg hselector, if_neg hselector]
    exact hat.fetchMany_bind (d := fun imm => .instruction (.mov p.rm (.imm (Encoding.ofImmediate imm))) 7)
      fun _ => rfl

theorem At.combineOne_eq (lead : UInt8) (h : (m.passed 2).At rest) :
    combineImmediate lead fetchOne (m.passed 2) = m.leaves (.ofOpcode lead 0x83 rest) := by
  apply h.fetchOperands_bind lead (by decide) rfl
  intro p rest hat
  cases rest with
  | nil => exact bind_error (bind_error hat.fetch_nil)
  | cons b rest =>
    obtain ⟨hfetch, -⟩ := hat.fetch_cons
    have hone : fetchOne (m.passed 3) = .ok [b] (m.passed 4) := bind_ok hfetch
    rw [bind_ok hone]
    exact combine_selected p [b] 4

theorem At.combineMany_eq (lead : UInt8) (h : (m.passed 2).At rest) :
    combineImmediate lead (fetchMany 4) (m.passed 2) = m.leaves (.ofOpcode lead 0x81 rest) := by
  apply h.fetchOperands_bind lead (by decide) rfl
  intro p rest hat
  exact hat.fetchMany_bind (d := fun imm => .aluImmediate p imm 7) fun imm => combine_selected p imm 7

theorem At.fetchOpcode_eq (lead op : UInt8) (h : (m.passed 2).At rest) :
    fetchOpcode lead op (m.passed 2) = m.leaves (.ofOpcode lead op rest) := by
  unfold fetchOpcode
  by_cases hwide : op.toNat / 8 = 0xB8 / 8
  · unfold Decoded.ofOpcode
    rw [if_pos hwide, if_pos hwide]
    exact h.fetchMany_bind (fun _ => rfl)
      (d := fun imm => .instruction (.mov (.ofBits lead.toNat op.toNat) (.imm (Encoding.ofImmediate imm))) 10)
  rw [if_neg hwide]
  split
  · rename_i hop
    rw [hop]
    exact h.moveImmediate_eq lead
  split
  · rename_i hop
    rw [hop]
    exact h.combineOne_eq lead
  split
  · rename_i hop
    rw [hop]
    exact h.combineMany_eq lead
  split
  · rename_i hop
    rw [hop]
    exact h.fetchOperands_bind lead (by decide) rfl fun _ _ _ => rfl
  split
  · rename_i hop
    rw [hop]
    exact h.fetchOperands_bind lead (by decide) rfl fun _ _ _ => rfl
  split
  · rename_i hop
    rw [hop]
    exact h.fetchOperands_bind lead (by decide) rfl fun _ _ _ => rfl
  · have htakes : Decoded.takesOperands op = false := by simp [Decoded.takesOperands, *]
    unfold Decoded.ofOpcode
    rw [if_neg hwide, htakes]
    rfl

theorem At.fetchInstruction_eq (h : m.At rest) : fetchInstruction m = m.leaves (Instruction.decode rest) := by
  rw [← passed_zero m] at h
  cases rest with
  | nil =>
    have hfetch := h.fetch_nil
    rw [passed_zero] at hfetch
    rw [fetchInstruction, bind_error hfetch, Instruction.decode, leaves, passed_zero]
  | cons op rest =>
    obtain ⟨hfetch, hat⟩ := h.fetch_cons
    rw [passed_zero] at hfetch
    rw [fetchInstruction, bind_ok hfetch]
    by_cases hret : op = 0xC3
    · rw [hret]
      rfl
    by_cases hnop : op = 0x90
    · rw [hnop]
      rfl
    unfold Instruction.decode
    simp only [if_neg hret, if_neg hnop]
    by_cases hlead : op.toNat / 16 ≠ 4
    · simp only [if_pos hlead]
      rfl
    by_cases hnarrow : op.toNat / 8 % 2 = 0
    · simp only [if_neg hlead, if_pos hnarrow]
      rfl
    simp only [if_neg hlead, if_neg hnarrow]
    cases rest with
    | nil => exact bind_error hat.fetch_nil
    | cons next rest =>
      obtain ⟨hnext, hrest⟩ := hat.fetch_cons
      rw [bind_ok hnext]
      exact hrest.fetchOpcode_eq op next

end Decoding

theorem counted_execute (m : Machine) (i : Instruction) : (m.execute i).counted = m.counted.execute i := by
  cases i <;> rfl

theorem at_drop {m : Machine} (hrun : m.halted = false) (hinside : 0 ≤ m.rip ∧ m.rip ≤ m.memory.size) :
    m.At (m.memory.toList.drop m.rip.toNat) := by
  refine ⟨hrun, m.memory.toList.take m.rip.toNat, (List.take_append_drop _ _).symm, ?_⟩
  rw [List.length_take, Array.length_toList]
  omega

theorem fetchInstruction_outside {m : Machine} (h : ¬ (0 ≤ m.rip ∧ m.rip ≤ m.memory.size)) :
    fetchInstruction m = m.leaves (Instruction.decode m.ahead) := by
  have hahead : m.ahead = [] := by
    apply List.eq_nil_of_length_eq_zero
    rw [ahead_length]
    split <;> omega
  have hfetch : fetch m = .error .outside m := by
    unfold fetch
    split
    · rfl
    · rw [Array.getElem?_eq_none (by omega)]
  rw [fetchInstruction, bind_error hfetch, hahead, Instruction.decode, leaves, passed_zero]

theorem fetchInstruction_ahead {m : Machine} (hrun : m.halted = false) :
    fetchInstruction m = m.leaves (Instruction.decode m.ahead) := by
  by_cases hinside : 0 ≤ m.rip ∧ m.rip ≤ m.memory.size
  · have hat := at_drop hrun hinside
    rw [hat.fetchInstruction_eq, ahead_eq hat, Instruction.decode_take]
  · exact fetchInstruction_outside hinside

theorem take_ahead {m : Machine} {i : Instruction} {width : Nat}
    (h : Instruction.decode m.ahead = .instruction i width) :
    (m.memory.toList.drop m.rip.toNat).take width = m.ahead.take width := by
  have hwithin := Decoded.decode_within m.ahead
  rw [h, Decoded.Within, ahead_length] at hwithin
  by_cases hneg : m.rip < 0
  · rw [if_pos hneg] at hwithin
    omega
  rw [if_neg hneg] at hwithin
  rw [ahead, if_neg hneg, Array.toList_extract, List.extract, List.take_take, Nat.add_sub_cancel_left,
    Instruction.longest, Nat.min_eq_left (by omega)]

/-- Fetching byte by byte takes the steps that decoding takes. -/
theorem fetchStep_eq (m : Machine) : m.fetchStep = m.step := by
  by_cases hhalted : m.halted = true
  · rw [fetchStep, if_pos hhalted, step_halted hhalted]
  rw [fetchStep, step, if_neg hhalted, if_neg hhalted, fetchInstruction_ahead (Bool.eq_false_iff.mpr hhalted)]
  cases hdecode : Instruction.decode m.ahead with
  | fault cause consumed => rfl
  | instruction i width =>
    have hcode :
        (m.memory.toList.drop m.rip.toNat).take (m.rip + width - m.rip).toNat = m.ahead.take width := by
      rw [show (m.rip + width - m.rip).toNat = width by omega, take_ahead hdecode]
    have hafter := counted_execute (m.passed width) i
    have hrax : ((m.passed width).execute i).rax = ((m.passed width).counted.execute i).rax := by
      rw [← hafter]
      rfl
    refine Prod.ext hafter (congrArg Except.ok ?_)
    rw [memory_execute, rip_execute, hrax]
    exact congrArg (Executed.mk m.rip · _) hcode

end Machine

end StepLang
