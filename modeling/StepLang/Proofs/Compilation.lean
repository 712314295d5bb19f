import StepLang.Compile
import StepLang.Proofs.Template

/-!
# Compiled expressions

The code of an expression moves its literal into the accumulator and applies its operators from the inside
out. It is a listing of instructions without a return, so executing its program gives the value of the
expression, one step for the literal, one for each operator and one for the return.
-/

namespace StepLang

namespace UnaryOp

theorem ofName?_name (op : UnaryOp) : ofName? op.name = some op := by
  cases op <;> rfl

def instruction : UnaryOp → Instruction
  | add1 => .alu .add Register.rax (.imm 1)
  | sub1 => .alu .sub Register.rax (.imm 1)

theorem statement_instruction (op : UnaryOp) : op.instruction.statement = op.statement := by
  have hone : Operand.text (.imm 1) = "1" := Numeral.nat_of_lt_ten (by decide)
  cases op <;> rw [instruction, Instruction.statement, hone] <;> rfl

theorem length_code_instruction (ops : List UnaryOp) :
    (Instruction.code (ops.map instruction)).length = 4 * ops.length := by
  induction ops with
  | nil => rfl
  | cons op ops ih =>
    have hop : (op.instruction.encode?.getD []).length = 4 := by cases op <;> rfl
    rw [Instruction.code] at ih
    rw [Instruction.code, List.map_cons, List.flatMap_cons, List.length_append, hop, ih, List.length_cons]
    omega

theorem encode_instruction (op : UnaryOp) : ∃ bytes, op.instruction.encode? = some bytes := by
  cases op <;> exact ⟨_, rfl⟩

theorem after_instruction (op : UnaryOp) (regs : Registers) :
    regs.after op.instruction Register.rax = regs Register.rax + op.delta := by
  cases op with
  | add1 => rfl
  | sub1 => exact Int64.sub_eq_add_neg _ _

def shift (ops : List UnaryOp) : Int := ops.count .add1 - ops.count .sub1

theorem ofInt_shift_cons (op : UnaryOp) (ops : List UnaryOp) :
    Int64.ofInt (shift (op :: ops)) = op.delta + Int64.ofInt (shift ops) := by
  cases op with
  | add1 =>
    have hshift : shift (.add1 :: ops) = 1 + shift ops := by
      simp [shift]
      omega
    rw [hshift, Int64.ofInt_add]
    rfl
  | sub1 =>
    have hshift : shift (.sub1 :: ops) = -1 + shift ops := by
      simp [shift]
      omega
    rw [hshift, Int64.ofInt_add]
    rfl

theorem shift_reverse (ops : List UnaryOp) : shift ops.reverse = shift ops := by
  simp [shift]

end UnaryOp

namespace Expr

/-- The literal that the operators are applied to, where there is one. -/
def literal? : Expr → Option Int32
  | hole => none
  | num n => some n
  | apply _ e => literal? e

/-- The operators, outermost first. -/
def operators : Expr → List UnaryOp
  | hole => []
  | num _ => []
  | apply op e => op :: operators e

theorem literal?_wrap (ops : List UnaryOp) (e : Expr) : (wrap ops e).literal? = e.literal? := by
  induction ops generalizing e with
  | nil => rfl
  | cons op ops ih => exact ih (apply op e)

theorem literal?_ofLiteral {text : Text} {pos : Position} {e : Expr} (h : ofLiteral text pos = .ok e) :
    ∃ n, e.literal? = some n := by
  unfold ofLiteral at h
  split at h
  · cases h
    exact ⟨_, rfl⟩
  · cases h
  · cases h

theorem literal?_ofDatumUnder {ops : List UnaryOp} {d : Datum} {e : Expr} (h : ofDatumUnder ops d = .ok e) :
    ∃ n, e.literal? = some n := by
  fun_induction ofDatumUnder ops d with
  | case2 ops text pos inner hinner =>
    cases h
    rw [literal?_wrap]
    exact literal?_ofLiteral hinner
  | case5 ops head operand pos op hop ih => exact ih h
  | _ => cases h

theorem literal?_parse {source : Text} {e : Expr} (h : parse source = .ok e) : ∃ n, e.literal? = some n := by
  unfold parse at h
  split at h
  · cases h
  · split at h
    · cases h
    · rename_i hd
      cases h
      exact literal?_ofDatumUnder hd

def instructions (e : Expr) (n : Int32) : List Instruction :=
  .mov Register.rax (.imm n.toInt64) :: e.operators.reverse.map UnaryOp.instruction

theorem codeThen_eq {e : Expr} {n : Int32} (h : e.literal? = some n) (later : Listing) :
    e.codeThen later =
      .ok (⟨"mov", accumulator, Numeral.int n.toInt⟩ ::
        (e.operators.reverse.map UnaryOp.statement ++ later)) := by
  induction e generalizing later with
  | hole => cases h
  | num m =>
    cases h
    rfl
  | apply op e ih =>
    rw [codeThen, ih h, operators, List.reverse_cons, List.map_append, List.append_assoc]
    rfl

theorem code_eq {e : Expr} {n : Int32} (h : e.literal? = some n) :
    e.code = .ok ((e.instructions n).map Instruction.statement) := by
  have hops : e.operators.reverse.map (Instruction.statement ∘ UnaryOp.instruction) =
      e.operators.reverse.map UnaryOp.statement := List.map_congr_left fun op _ => op.statement_instruction
  rw [code, codeThen_eq h, List.append_nil, instructions, List.map_cons, List.map_map, hops,
    Instruction.statement, Operand.text, Int32.toInt_toInt64]
  rfl

theorem literal_fits (n : Int32) : Encoding.fits 4 n.toInt64 = true := by
  have hlo := Int32.le_toInt n
  have hhi := Int32.toInt_lt n
  have hspan : (Encoding.span 4 : Int) = 2 * 2 ^ 31 := rfl
  simp only [Encoding.fits, Int32.toInt_toInt64, hspan, Bool.and_eq_true, decide_eq_true_eq]
  omega

theorem encode_mov (n : Int32) :
    (Instruction.mov Register.rax (.imm n.toInt64)).encode? =
      some ([0x48, 0xC7, 0xC0] ++ Encoding.immediate 4 n.toInt64) := by
  rw [Instruction.encode?, if_pos (literal_fits n)]
  rfl

theorem encode_instructions (e : Expr) (n : Int32) :
    ∀ i ∈ e.instructions n, ∃ bytes, i.encode? = some bytes := by
  refine List.forall_mem_cons.mpr ⟨⟨_, encode_mov n⟩, ?_⟩
  intro i hi
  obtain ⟨op, -, rfl⟩ := List.mem_map.mp hi
  exact op.encode_instruction

theorem instructions_ne_ret (e : Expr) (n : Int32) : ∀ i ∈ e.instructions n, i ≠ .ret := by
  refine List.forall_mem_cons.mpr ⟨by simp, ?_⟩
  intro i hi
  obtain ⟨op, -, rfl⟩ := List.mem_map.mp hi
  cases op <;> simp [UnaryOp.instruction]

theorem length_instructions (e : Expr) (n : Int32) : (e.instructions n).length = e.operators.length + 1 := by
  simp [instructions]

theorem length_code_take (e : Expr) (n : Int32) {k : Nat} (hk : k ≤ e.operators.length) :
    (Instruction.code ((e.instructions n).take (k + 1))).length = 7 + 4 * k := by
  have hops := UnaryOp.length_code_instruction (e.operators.reverse.take k)
  rw [Instruction.code, List.map_take, List.length_take, List.length_reverse, Nat.min_eq_left hk] at hops
  rw [instructions, List.take_succ_cons, Instruction.code, List.flatMap_cons, encode_mov, Option.getD_some,
    List.length_append, List.length_append, Encoding.length_immediate, hops]
  rfl

theorem evalFrom_eq {e : Expr} {n : Int32} (h : e.literal? = some n) (adjust : Int64) :
    e.evalFrom adjust = .ok (n.toInt64 + (Int64.ofInt (UnaryOp.shift e.operators) + adjust)) := by
  induction e generalizing adjust with
  | hole => cases h
  | num m =>
    cases h
    have hzero : Int64.ofInt (UnaryOp.shift []) = 0 := rfl
    rw [evalFrom, operators, hzero, Int64.zero_add]
  | apply op e ih =>
    rw [evalFrom, ih h, operators, UnaryOp.ofInt_shift_cons, Int64.add_comm adjust,
      ← Int64.add_assoc (.ofInt _), Int64.add_comm (.ofInt _)]

theorem after_operators (ops : List UnaryOp) (regs : Registers) :
    (ops.map UnaryOp.instruction).foldl Registers.after regs Register.rax =
      regs Register.rax + Int64.ofInt (UnaryOp.shift ops) := by
  induction ops generalizing regs with
  | nil =>
    have hzero : Int64.ofInt (UnaryOp.shift []) = 0 := rfl
    rw [hzero, Int64.add_zero]
    rfl
  | cons op ops ih =>
    rw [List.map_cons, List.foldl_cons, ih, op.after_instruction, UnaryOp.ofInt_shift_cons, Int64.add_assoc]

theorem eval_eq {e : Expr} {n : Int32} (h : e.literal? = some n) :
    e.eval = .ok (.ofInt (n.toInt + UnaryOp.shift e.operators)) := by
  rw [eval, evalFrom_eq h, Int64.add_zero, Int64.ofInt_add, Int64.ofInt_int32ToInt]

theorem after_instructions (e : Expr) (n : Int32) (regs : Registers) :
    (e.instructions n).foldl Registers.after regs Register.rax =
    .ofInt (n.toInt + UnaryOp.shift e.operators) := by
  rw [instructions, List.foldl_cons, after_operators, UnaryOp.shift_reverse, Int64.ofInt_add,
    Int64.ofInt_int32ToInt]
  rfl

theorem compileProgram_of_literal {source : Text} {e : Expr} {n : Int32} (hparse : parse source = .ok e)
    (hliteral : e.literal? = some n) :
    compileProgram source = .ok (Listing.program ((e.instructions n).map Instruction.statement)) := by
  simp only [compileProgram, StepLang.compile, hparse, Expr.compile, code_eq hliteral]

theorem execute_instructions (e : Expr) (n : Int32) (budget : Int64) :
    (execute (Listing.program ((e.instructions n).map Instruction.statement)) Listing.entryLabel
      budget).result =
      if 0 < budget.toInt ∧ budget.toInt < e.operators.length + 2 then
        .error (.run (.limit budget (7 + 4 * (budget.toInt - 1))))
      else .ok (.ofInt (n.toInt + UnaryOp.shift e.operators)) := by
  rw [Listing.execute_program (encode_instructions e n) (instructions_ne_ret e n) budget, after_instructions,
    length_instructions]
  by_cases hlimit : 0 < budget.toInt ∧ budget.toInt < e.operators.length + 2
  · obtain ⟨k, hk⟩ := Int.eq_ofNat_of_zero_le (show 0 ≤ budget.toInt - 1 by omega)
    have hbudget : budget.toInt.toNat = k + 1 := by omega
    rw [if_pos hlimit, if_pos (by omega), hbudget, length_code_take e n (by omega), hk]
    rfl
  · rw [if_neg hlimit, if_neg (by omega)]

end Expr

theorem parse_of_compileProgram {source program : Text} (h : compileProgram source = .ok program) :
    ∃ e, Expr.parse source = .ok e := by
  cases hparse : Expr.parse source with
  | error e => simp [compileProgram, compile, hparse] at h
  | ok e => exact ⟨e, rfl⟩

/-- A source compiles exactly when it is an expression, and the program computes the value of the
expression: the literal plus one for each `add1` and minus one for each `sub1`, as a signed word. It takes
two steps more than there are operators, and with a smaller budget it stops at the limit behind as many
instructions. -/
theorem execute_compileProgram (source : Text) :
    ((∃ program, compileProgram source = .ok program) ↔ ∃ e, Expr.parse source = .ok e) ∧
      ∀ e, Expr.parse source = .ok e →
        ∃ program n v, compileProgram source = .ok program ∧ e.literal? = some n ∧ e.eval = .ok v ∧
          v = .ofInt (n.toInt + e.operators.count .add1 - e.operators.count .sub1) ∧
          ∀ budget : Int64, (execute program Listing.entryLabel budget).result =
            if 0 < budget.toInt ∧ budget.toInt < e.operators.length + 2 then
              .error (.run (.limit budget (7 + 4 * (budget.toInt - 1))))
            else .ok v := by
  refine ⟨⟨fun ⟨_, h⟩ => parse_of_compileProgram h, ?_⟩, ?_⟩
  · rintro ⟨e, he⟩
    obtain ⟨n, hn⟩ := Expr.literal?_parse he
    exact ⟨_, Expr.compileProgram_of_literal he hn⟩
  · intro e he
    obtain ⟨n, hn⟩ := Expr.literal?_parse he
    refine ⟨_, n, _, Expr.compileProgram_of_literal he hn, hn, Expr.eval_eq hn, ?_, e.execute_instructions n⟩
    rw [UnaryOp.shift, ← Int.add_sub_assoc]

/-- At the end of the range of literals the value leaves it, and four is the last budget that is too small. -/
theorem execute_compileProgram_largest :
    Expr.parse "(add1 [sub1 (add1 2147483647)])" =
        .ok (.apply .add1 (.apply .sub1 (.apply .add1 (.num 2147483647)))) ∧
      ∃ program, compileProgram "(add1 [sub1 (add1 2147483647)])" = .ok program ∧
        (execute program Listing.entryLabel 4).result = .error (.run (.limit 4 19)) ∧
        (execute program Listing.entryLabel 5).result = .ok 2147483648 ∧
        (execute program Listing.entryLabel (-1)).result = .ok 2147483648 := by
  have hparse : Expr.parse "(add1 [sub1 (add1 2147483647)])" =
      .ok (.apply .add1 (.apply .sub1 (.apply .add1 (.num 2147483647)))) := rfl
  obtain ⟨program, n, v, hprogram, hn, -, rfl, hrun⟩ := (execute_compileProgram _).2 _ hparse
  cases hn
  exact ⟨hparse, program, hprogram, hrun 4, hrun 5, hrun (-1)⟩

end StepLang
