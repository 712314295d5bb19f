import Mathlib.Data.List.Forall2
import StepLang.Execution
import StepLang.Proofs.Layout
import StepLang.Proofs.Stepping

/-!
# Interpreting lines

Instructions can be carried out line by line as they are written, without code, offsets or a machine.
Executing the assembled text is a simulation of this: it ends the same way, and every instruction it
executes starts at the offset that the source map gives to the line that is carried out.
-/

namespace StepLang

abbrev Registers := Register → Int64

namespace Registers

def zero : Registers := fun _ => 0

def operand (regs : Registers) : Operand → Int64
  | .reg r => regs r
  | .imm v => v

def set (regs : Registers) (r : Register) (v : Int64) : Registers := fun q => if q = r then v else regs q

/-- The registers after an instruction; sums and differences wrap. -/
def after (regs : Registers) : Instruction → Registers
  | .ret => regs
  | .nop => regs
  | .mov dst src => regs.set dst (regs.operand src)
  | .alu .add dst src => regs.set dst (regs dst + regs.operand src)
  | .alu .sub dst src => regs.set dst (regs dst - regs.operand src)

end Registers

/-- What a line says: its number, its labels, and the instruction on it. -/
structure ProgramLine where
  number : Nat
  labels : List Text
  instruction? : Option Instruction
  deriving DecidableEq

/-- The text is read as the line, whatever its number is. -/
def ProgramLine.Reads (t : Text) (l : ProgramLine) : Prop :=
  ∃ line, Line.parse t = .ok line ∧ line.labels = l.labels ∧ line.Orders l.instruction?

theorem ProgramLine.Reads.unique {t : Text} {l k : ProgramLine} (hl : Reads t l) (hk : Reads t k)
    (hnumber : l.number = k.number) : l = k := by
  obtain ⟨line, hline, hlabels, horders⟩ := hl
  obtain ⟨other, hother, hlabels', horders'⟩ := hk
  rw [hline, Except.ok.injEq] at hother
  subst hother
  rw [ProgramLine.mk.injEq]
  exact ⟨hnumber, hlabels.symm.trans hlabels', horders.unique horders'⟩

abbrev Program := List ProgramLine

inductive RunOutcome where
  | returned (rax : Int64)
  | undefinedLabel (label : Text)
  | nothingToRun
  | ranOff
  | limit (budget : Int64)
  deriving DecidableEq

/-- The numbers of the lines that were carried out, and how it ended. -/
structure Interpretation where
  visited : List Nat
  outcome : RunOutcome
  deriving DecidableEq

namespace Interpretation

def spent (budget : Int64) (done : Nat) : Bool := 0 < budget.toInt && budget.toInt ≤ done

/-- Carries out numbered instructions behind `done` others. The budget is looked at before every
instruction, and also behind the last one. -/
def run (budget : Int64) (done : Nat) (regs : Registers) : List (Nat × Instruction) → Interpretation
  | [] => if spent budget done then ⟨[], .limit budget⟩ else ⟨[], .ranOff⟩
  | (number, i) :: rest =>
    if spent budget done then ⟨[], .limit budget⟩
    else if i = .ret then ⟨[number], .returned (regs .rax)⟩
    else
      let later := run budget (done + 1) (regs.after i) rest
      ⟨number :: later.visited, later.outcome⟩

/-- No more instructions were carried out than the budget, if there is one, allows. -/
def Within (budget : Int64) (done : Nat) : Prop := 0 < budget.toInt → (done : Int) ≤ budget.toInt

theorem within_zero (budget : Int64) : Within budget 0 := by
  intro hbudget
  omega

theorem spent_iff {budget : Int64} {done : Nat} : spent budget done = true ↔ 0 < budget.toInt ∧
    budget.toInt ≤ done := by
  simp [spent]

theorem Within.succ {budget : Int64} {done : Nat} (hspent : spent budget done = false) :
    Within budget (done + 1) := by
  intro hbudget
  have hnot : ¬ (0 < budget.toInt ∧ budget.toInt ≤ done) := by
    rw [← spent_iff, hspent]
    exact Bool.false_ne_true
  omega

theorem run_spent {budget : Int64} {done : Nat} (h : spent budget done = true) (regs : Registers)
    (is : List (Nat × Instruction)) : run budget done regs is = ⟨[], .limit budget⟩ := by
  cases is <;> rw [run, if_pos h]

def code (is : List (Nat × Instruction)) : List UInt8 := is.flatMap fun p => p.2.encode?.getD []

/-- The addresses of instructions whose bytes start at `address`, with the numbers of their lines. -/
def starts (address : Nat) : List (Nat × Instruction) → List (Nat × Nat)
  | [] => []
  | (number, i) :: rest => (address, number) :: starts (address + (i.encode?.getD []).length) rest

end Interpretation

namespace Program

/-- The lines of a text as they are read one by one, numbered from one. -/
def ReadFrom (source : Text) (p : Program) : Prop :=
  List.Forall₂ ProgramLine.Reads source.lines p ∧ p.map ProgramLine.number = List.range' 1 p.length

theorem reads_unique {ts : List Text} {p q : Program} {number : Nat}
    (hp : List.Forall₂ ProgramLine.Reads ts p)
    (hq : List.Forall₂ ProgramLine.Reads ts q)
    (hnumbers : p.map ProgramLine.number = List.range' number p.length)
    (hothers : q.map ProgramLine.number = List.range' number q.length) : p = q := by
  induction hp generalizing q number with
  | nil =>
    cases hq
    rfl
  | @cons t l ts p hl hp ih =>
    cases hq with
    | @cons _ k _ q hk hq =>
      rw [List.map_cons, List.length_cons, List.range'_succ, List.cons.injEq] at hnumbers hothers
      rw [hl.unique hk (hnumbers.1.trans hothers.1.symm), ih hq hnumbers.2 hothers.2]

theorem ReadFrom.unique {source : Text} {p q : Program} (hp : ReadFrom source p)
    (hq : ReadFrom source q) : p = q :=
  reads_unique hp.1 hq.1 hp.2 hq.2

/-- The lines from a label's line on; the empty name stands for the first line. -/
def from? (label : Text) (p : Program) : Option Program :=
  if label = [] then some p
  else
    match p.dropWhile fun l => !l.labels.contains label with
    | [] => none
    | l :: rest => some (l :: rest)

def instructions (p : Program) : List (Nat × Instruction) :=
  p.filterMap fun l => l.instruction?.map fun i => (l.number, i)

def interpret (p : Program) (label : Text) (budget : Int64) : Interpretation :=
  match p.from? label with
  | none => ⟨[], .undefinedLabel label⟩
  | some rest =>
    match rest.instructions with
    | [] => ⟨[], .nothingToRun⟩
    | first :: others => .run budget 0 .zero (first :: others)

end Program

/-- How an execution ended, as far as it can be told without the code. -/
def RunOutcome.ofResult : Except ExecutionError Int64 → Option RunOutcome
  | .ok rax => some (.returned rax)
  | .error (.assembly _) => none
  | .error (.entry label) => some (.undefinedLabel label)
  | .error (.load _) => some .nothingToRun
  | .error (.run .halted) => none
  | .error (.run (.fault f)) => if f.cause = .outside ∧ f.start = f.size then some .ranOff else none
  | .error (.run (.limit budget _)) => some (.limit budget)

namespace Machine

theorem get_setReg (m : Machine) (r q : Register) (v : UInt64) :
    (m.setReg r v).regs.get q = if q = r then v else m.regs.get q := by
  change (m.regs.set r.val v r.isLt)[q.val] = if q = r then v else m.regs[q.val]
  rw [Vector.getElem_set]
  by_cases h : q = r
  · simp [h]
  · rw [if_neg h, if_neg fun hv => h (Fin.ext hv.symm)]

def Holds (m : Machine) (regs : Registers) : Prop := ∀ r, (m.regs.get r).toInt64 = regs r

theorem Holds.operand {m : Machine} {regs : Registers} (h : m.Holds regs) (src : Operand) :
    (m.operandValue src).toInt64 = regs.operand src := by
  cases src with
  | reg r => exact h r
  | imm v => rfl

theorem Holds.setReg {m : Machine} {regs : Registers} (h : m.Holds regs) (r : Register) (v : UInt64) :
    (m.setReg r v).Holds (regs.set r v.toInt64) := by
  intro q
  rw [get_setReg, Registers.set]
  by_cases hq : q = r
  · simp [hq]
  · simp [hq, h q]

theorem Holds.execute {m : Machine} {regs : Registers} (h : m.Holds regs) (i : Instruction) :
    (m.execute i).Holds (regs.after i) := by
  cases i with
  | ret => exact h
  | nop => exact h
  | mov dst src =>
    have hset := h.setReg dst (m.operandValue src)
    rw [h.operand] at hset
    exact hset
  | alu op dst src =>
    have hset := h.setReg dst (op.compute (m.regs.get dst) (m.operandValue src)).1
    cases op with
    | add =>
      simp only [AluOp.compute, UInt64.toInt64_add, h.operand, h dst] at hset
      exact hset
    | sub =>
      simp only [AluOp.compute, UInt64.toInt64_sub, h.operand, h dst] at hset
      exact hset

/-- The machine has still to execute the instructions, behind `done` others. -/
structure Simulates (m : Machine) (done : Nat) (regs : Registers) (is : List (Nat × Instruction)) : Prop where
  ahead : m.At (Interpretation.code is)
  holds : m.Holds regs
  steps : m.steps = .ofNat done

/-- The step counter wraps, but no budget is so large that it would be missed. -/
theorem Simulates.exhausted {m : Machine} {done : Nat} {regs : Registers} {is : List (Nat × Instruction)}
    (h : m.Simulates done regs is) {budget : Int64} (hdone : Interpretation.Within budget done) :
    m.exhausted budget = Interpretation.spent budget done := by
  have hlt := Int64.toInt_lt budget
  simp only [Machine.exhausted, Interpretation.spent, h.steps, Int64.lt_iff_toInt_lt, Int64.le_iff_toInt_le,
    Int64.toInt_zero]
  by_cases hb : 0 < budget.toInt
  · have hle := hdone hb
    rw [Int64.toInt_ofNat_of_lt (by omega)]
  · simp [hb]

theorem Simulates.step {m : Machine} {done : Nat} {regs : Registers} {number : Nat} {i : Instruction}
    {bytes : List UInt8} {rest : List (Nat × Instruction)} (h : m.Simulates done regs ((number, i) :: rest))
    (henc : i.encode? = some bytes) :
    ∃ after x, m.step = (after, .ok x) ∧ x.offset = m.rip ∧ after.rip = m.rip + bytes.length ∧
      after.Holds (regs.after i) ∧ (i = .ret → after.halted = true) ∧
      (i ≠ .ret → after.Simulates (done + 1) (regs.after i) rest) := by
  have hahead : m.At (bytes ++ Interpretation.code rest) := by
    simpa [Interpretation.code, henc] using h.ahead
  have hmoved : Holds { m with rip := m.rip + bytes.length, steps := m.steps + 1 } regs := h.holds
  refine ⟨_, _, step_encoded hahead henc, rfl, by simp, hmoved.execute i, ?_, ?_⟩
  · rintro rfl
    rfl
  · intro hret
    exact ⟨hahead.execute hret _, hmoved.execute i, by simp [h.steps, Int64.ofNat_add]⟩

/-- The run ended as the interpretation of the instructions at `address` did. A limit stops it behind the
bytes of the instructions that were carried out. -/
def Ending.Realises (e : Ending) (address : Nat) (is : List (Nat × Instruction))
    (r : Interpretation) : Prop :=
  match r.outcome with
  | .returned rax => e.result = .ok () ∧ e.machine.rax = rax
  | .limit budget =>
    e.result = .error
      (.limit budget (address + (Interpretation.code (is.take r.visited.length)).length : Nat))
  | .ranOff => ∃ n : Nat, e.result = .error (.fault ⟨n, n, n, .outside⟩)
  | _ => False

theorem Ending.Realises.cons {e : Ending} {address number : Nat} {i : Instruction} {bytes : List UInt8}
    {rest : List (Nat × Instruction)} {r : Interpretation} (henc : i.encode? = some bytes)
    (h : e.Realises (address + bytes.length) rest r) :
    e.Realises address ((number, i) :: rest) ⟨number :: r.visited, r.outcome⟩ := by
  unfold Realises at h ⊢
  cases hr : r.outcome with
  | limit budget =>
    simp only [hr] at h ⊢
    rw [h, List.length_cons, List.take_succ_cons]
    simp [Interpretation.code, henc, Nat.add_assoc]
  | returned rax => simpa only [hr] using h
  | ranOff => simpa only [hr] using h
  | undefinedLabel label => simp only [hr] at h
  | nothingToRun => simp only [hr] at h

/-- An executed instruction starts where the list says that the line does. -/
def StartsAt (starts : List (Nat × Nat)) (x : Executed) (number : Nat) : Prop :=
  ∃ offset : Nat, x.offset = offset ∧ (offset, number) ∈ starts

/-- The run ended as an interpretation did, and behind `log`, which stands newest first, it executed the
lines that were carried out. -/
structure Ending.Follows (e : Ending) (log : List Executed) (address : Nat) (is : List (Nat × Instruction))
    (r : Interpretation) : Prop where
  realises : e.Realises address is r
  executes : ∃ executed, e.log = log.reverse ++ executed ∧
    List.Forall₂ (StartsAt (Interpretation.starts address is)) executed r.visited

theorem Ending.Follows.cons {e : Ending} {log : List Executed} {address number : Nat} {i : Instruction}
    {bytes : List UInt8} {rest : List (Nat × Instruction)} {r : Interpretation} {x : Executed}
    (henc : i.encode? = some bytes) (hx : x.offset = address)
    (h : e.Follows (x :: log) (address + bytes.length) rest r) :
    e.Follows log address ((number, i) :: rest) ⟨number :: r.visited, r.outcome⟩ := by
  obtain ⟨executed, hlog, hstarts⟩ := h.executes
  refine ⟨h.realises.cons henc, x :: executed, by simp [hlog], .cons ⟨address, hx, List.mem_cons_self⟩ ?_⟩
  refine hstarts.imp ?_
  rintro y line ⟨offset, hoffset, hmem⟩
  refine ⟨offset, hoffset, List.mem_cons_of_mem _ ?_⟩
  simpa [henc] using hmem

section

variable {budget : Int64} {m : Machine} {done address : Nat} {regs : Registers}
  {is : List (Nat × Instruction)}

theorem Simulates.follows_spent (h : m.Simulates done regs is) (hrip : m.rip = address)
    (hdone : Interpretation.Within budget done) (hspent : Interpretation.spent budget done = true)
    (log : List Executed) : (m.runWith budget log).Follows log address is (.run budget done regs is) := by
  rw [Interpretation.run_spent hspent,
    runWith_exhausted log h.ahead.running ((h.exhausted hdone).trans hspent)]
  exact ⟨by simp [Ending.Realises, Interpretation.code, hrip], [], by simp, .nil⟩

theorem Simulates.follows_end (h : m.Simulates done regs [])
    (hdone : Interpretation.Within budget done) (hspent : Interpretation.spent budget done = false)
    (log : List Executed) : (m.runWith budget log).Follows log address [] (.run budget done regs []) := by
  have hend : m.At [] := h.ahead
  obtain ⟨front, hmem, hfront⟩ := hend.inside
  have hsize : m.memory.size = front.length := by
    rw [← Array.length_toList, hmem, List.append_nil]
  rw [Interpretation.run, if_neg (by simp [hspent]),
    runWith_error log h.ahead.running ((h.exhausted hdone).trans hspent) (step_end hend)]
  exact ⟨⟨front.length, by rw [hsize, hfront]⟩, [], by simp, .nil⟩

theorem Simulates.follows (hcode : ∀ p ∈ is, ∃ bytes, p.2.encode? = some bytes) (h : m.Simulates done regs is)
    (hrip : m.rip = address) (hdone : Interpretation.Within budget done) (log : List Executed) :
    (m.runWith budget log).Follows log address is (.run budget done regs is) := by
  induction is generalizing m done address regs log with
  | nil =>
    cases hspent : Interpretation.spent budget done with
    | true => exact h.follows_spent hrip hdone hspent log
    | false => exact h.follows_end hdone hspent log
  | cons p rest ih =>
    obtain ⟨number, i⟩ := p
    cases hspent : Interpretation.spent budget done with
    | true => exact h.follows_spent hrip hdone hspent log
    | false =>
      obtain ⟨bytes, henc⟩ := hcode (number, i) List.mem_cons_self
      obtain ⟨after, x, hstep, hx, hafter, hholds, hhalt, hnext⟩ := h.step henc
      rw [runWith_ok log h.ahead.running ((h.exhausted hdone).trans hspent) hstep, Interpretation.run,
        if_neg (by simp [hspent])]
      split
      · rename_i hret
        subst hret
        rw [runWith_halted (x :: log) (hhalt rfl)]
        refine ⟨⟨rfl, hholds Register.rax⟩, [x], by simp, .cons ?_ .nil⟩
        exact ⟨address, hx.trans hrip, List.mem_cons_self⟩
      · rename_i hret
        have hmoved : after.rip = (address + bytes.length : Nat) := by omega
        have hlater :=
          ih (fun q hq => hcode q (List.mem_cons_of_mem _ hq)) (hnext hret) hmoved (.succ hspent) (x :: log)
        exact hlater.cons henc (hx.trans hrip)

end

theorem load_simulates {front : List UInt8} {is : List (Nat × Instruction)}
    (henc : ∀ p ∈ is, ∃ bytes, p.2.encode? = some bytes) (hne : is ≠ []) :
    ∃ machine, initial.load (front ++ Interpretation.code is) front.length = .ok machine ∧
      machine.rip = front.length ∧ machine.Simulates 0 .zero is := by
  have hpos : 0 < (Interpretation.code is).length := by
    cases is with
    | nil => exact absurd rfl hne
    | cons p rest =>
      obtain ⟨bytes, hbytes⟩ := henc p List.mem_cons_self
      have hlen := (Instruction.length_encode hbytes).1
      simp only [Interpretation.code, List.flatMap_cons, hbytes, Option.getD_some, List.length_append]
      omega
  rw [load, if_neg (by rw [List.length_append]; omega)]
  refine ⟨_, rfl, rfl, ⟨rfl, front, by simp, rfl⟩, ?_, rfl⟩
  intro r
  simp [initial, Registers.zero, Vector.get]

end Machine

theorem execute_simulates {source label : Text} {object : Object} {front : List UInt8}
    {is : List (Nat × Instruction)} (hobject : assemble source = .ok object)
    (hentry : object.entry? label = some front.length) (hcode : object.code = front ++ Interpretation.code is)
    (henc : ∀ p ∈ is, ∃ bytes, p.2.encode? = some bytes) (hne : is ≠ []) (budget : Int64) :
    ∃ ending : Machine.Ending,
      execute source label budget = ⟨ending.log, match ending.result with
        | .error e => .error (.run e)
        | .ok () => .ok ending.machine.rax⟩ ∧
      ending.Realises front.length is (.run budget 0 .zero is) ∧
      List.Forall₂ (Machine.StartsAt (Interpretation.starts front.length is)) ending.log
        (Interpretation.run budget 0 .zero is).visited := by
  obtain ⟨machine, hload, hrip, hsim⟩ := Machine.load_simulates henc hne
  rw [← hcode] at hload
  have hfollows := hsim.follows henc hrip (Interpretation.within_zero budget) []
  obtain ⟨executed, hlog, hstarts⟩ := hfollows.executes
  refine ⟨machine.runUntil budget, ?_, hfollows.realises, ?_⟩
  · simp only [execute, hobject, hentry, hload]
    cases (machine.runUntil budget).result with
    | error e => rfl
    | ok u => rfl
  · rw [List.reverse_nil, List.nil_append] at hlog
    rw [Machine.runUntil, hlog]
    exact hstarts

end StepLang
