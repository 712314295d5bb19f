import StepLang.Proofs.Compilation

/-!
# Walking down expressions

The code, the value and the text of an expression are made on one walk from the outside in, which carries
along what the operators that were passed have still to add. What it carries only joins the result at the
end. So an operator adds the same wherever the walk meets it, and all three can be told from the operand
alone.
-/

namespace StepLang.Expr

theorem codeThen_eq_map (e : Expr) (later : Listing) : e.codeThen later = e.code.map (· ++ later) := by
  induction e generalizing later with
  | hole => rfl
  | num n => rfl
  | apply op e ih =>
    rw [code, codeThen, codeThen, ih (op.statement :: later), ih [op.statement]]
    cases e.code with
    | error fault => rfl
    | ok listing =>
      simp only [Except.map, List.append_assoc, List.singleton_append]

theorem code_apply (op : UnaryOp) (e : Expr) : (apply op e).code = e.code.map (· ++ [op.statement]) :=
  codeThen_eq_map e [op.statement]

theorem code_wrap (ops : List UnaryOp) (e : Expr) :
    (wrap ops e).code = e.code.map (· ++ ops.map UnaryOp.statement) := by
  induction ops generalizing e with
  | nil =>
    cases hcode : e.code with
    | error fault => exact hcode
    | ok listing => simp only [wrap, hcode, Except.map, List.map_nil, List.append_nil]
  | cons op ops ih =>
    rw [wrap, ih, code_apply]
    cases e.code with
    | error fault => rfl
    | ok listing => simp only [Except.map, List.map_cons, List.append_assoc, List.singleton_append]

theorem evalFrom_eq_map (e : Expr) (adjust : Int64) : e.evalFrom adjust = e.eval.map (· + adjust) := by
  induction e generalizing adjust with
  | hole => rfl
  | num n => simp only [eval, evalFrom, Except.map, Int64.add_zero]
  | apply op e ih =>
    rw [eval, evalFrom, evalFrom, ih (adjust + op.delta), ih (0 + op.delta)]
    cases e.eval with
    | error fault => rfl
    | ok v => simp only [Except.map, Int64.zero_add, Int64.add_assoc, Int64.add_comm adjust]

theorem eval_apply (op : UnaryOp) (e : Expr) : (apply op e).eval = e.eval.map (· + op.delta) := by
  rw [eval, evalFrom, Int64.zero_add, evalFrom_eq_map]

theorem textFrom_eq_append (e : Expr) (written closers : Text) :
    e.textFrom written closers = written.reverse ++ (e.text ++ closers) := by
  induction e generalizing written closers with
  | hole => simp only [text, textFrom, List.reverse_nil, List.nil_append, List.append_nil]
  | num n => simp only [text, textFrom, List.reverse_nil, List.nil_append, List.append_nil]
  | apply op e ih =>
    rw [text, textFrom, textFrom, ih, ih]
    simp only [List.reverse_cons, List.reverse_append, List.reverse_reverse, List.reverse_nil,
      List.append_assoc, List.nil_append, List.cons_append]

theorem text_apply (op : UnaryOp) (e : Expr) :
    (apply op e).text = "(" ++ (op.name ++ (" " ++ (e.text ++ ")"))) := by
  rw [text, textFrom, textFrom_eq_append]
  simp only [List.reverse_cons, List.reverse_append, List.reverse_reverse, List.reverse_nil,
    List.append_assoc, List.nil_append, List.cons_append]
  rfl

/-- Where no operand is missing there are code and a value. The code has one statement for the literal and
one for each operator. -/
theorem exists_code_eval {e : Expr} {n : Int32} (h : e.literal? = some n) :
    ∃ (listing : Listing) (v : Int64), e.code = .ok listing ∧ e.eval = .ok v ∧
      listing.length = e.operators.length + 1 := by
  refine ⟨_, _, code_eq h, eval_eq h, ?_⟩
  rw [List.length_map, length_instructions]

/-- The walks give what is told from the operand: an operator adds its statement behind the code of its
operand, moves the value by one, and puts its name and brackets around the text. Operators put around an
expression add one statement each. An expression that is built from a datum has code and a value, so no walk
over it runs into a hole. -/
theorem walks_structural :
    (∀ n : Int32, (num n).code = .ok [⟨"mov", "rax", Numeral.int n.toInt⟩] ∧ (num n).eval = .ok n.toInt64 ∧
      (num n).text = Numeral.int n.toInt) ∧
    (∀ (e : Expr) (n : Int32), e.literal? = some n → ∃ (listing : Listing) (v : Int64),
      e.code = .ok listing ∧ e.eval = .ok v ∧ listing.length = e.operators.length + 1 ∧
      (apply .add1 e).code = .ok (listing ++ [⟨"add", "rax", "1"⟩]) ∧
      (apply .sub1 e).code = .ok (listing ++ [⟨"sub", "rax", "1"⟩]) ∧
      (∀ ops : List UnaryOp, (wrap ops e).code = .ok (listing ++ ops.map UnaryOp.statement)) ∧
      (apply .add1 e).eval = .ok (v + 1) ∧ (apply .sub1 e).eval = .ok (v - 1) ∧
      (apply .add1 e).text = "(add1 " ++ (e.text ++ ")") ∧
      (apply .sub1 e).text = "(sub1 " ++ (e.text ++ ")")) ∧
    ∀ (d : Datum) (e : Expr), ofDatum d = .ok e → ∃ (listing : Listing) (v : Int64), e.code = .ok listing ∧
      e.eval = .ok v := by
  refine ⟨?_, ?_, ?_⟩
  · intro n
    refine ⟨rfl, ?_, ?_⟩
    · rw [eval, evalFrom, Int64.add_zero]
    · rw [text, textFrom, List.reverse_nil, List.nil_append, List.append_nil]
  · intro e n h
    obtain ⟨listing, v, hcode, heval, hlength⟩ := exists_code_eval h
    refine ⟨listing, v, hcode, heval, hlength, ?_, ?_, ?_, ?_, ?_, text_apply .add1 e, text_apply .sub1 e⟩
    · rw [code_apply, hcode]
      rfl
    · rw [code_apply, hcode]
      rfl
    · intro ops
      rw [code_wrap, hcode]
      rfl
    · rw [eval_apply, heval]
      rfl
    · rw [eval_apply, heval, Int64.sub_eq_add_neg]
      rfl
  · intro d e h
    obtain ⟨n, hn⟩ := literal?_ofDatumUnder h
    obtain ⟨listing, v, hcode, heval, -⟩ := exists_code_eval hn
    exact ⟨listing, v, hcode, heval⟩

/-- The least literal under two operators, and three operators more, which come to stand behind them. -/
theorem walks_structural_least :
    ∃ listing : Listing, code (.apply .sub1 (.apply .add1 (.num (-2147483648)))) = .ok listing ∧
    listing.length = 3 ∧
      code (wrap [.sub1, .sub1, .add1] (.apply .sub1 (.apply .add1 (.num (-2147483648))))) =
        .ok (listing ++ [⟨"sub", "rax", "1"⟩, ⟨"sub", "rax", "1"⟩, ⟨"add", "rax", "1"⟩]) ∧
      eval (.apply .sub1 (.apply .sub1 (.apply .add1 (.num (-2147483648))))) = .ok (-2147483649) ∧
      ∃ d e, Datum.read "(sub1 (add1 -2147483648))" = .ok d ∧ ofDatum d = .ok e ∧ ∃ l v, e.code = .ok l ∧
        e.eval = .ok v := by
  obtain ⟨listing, v, hcode, heval, hlength, -, -, hwrap, -, hsub, -, -⟩ :=
    walks_structural.2.1 (.apply .sub1 (.apply .add1 (.num (-2147483648)))) (-2147483648) rfl
  cases heval
  obtain ⟨d, hread⟩ : ∃ d, Datum.read "(sub1 (add1 -2147483648))" = .ok d := ⟨_, rfl⟩
  obtain ⟨e, hbuild⟩ : ∃ e, ofDatum d = .ok e := by
    cases hread
    exact ⟨_, rfl⟩
  exact ⟨listing, hcode, hlength, hwrap _, hsub, d, e, hread, hbuild, walks_structural.2.2 d e hbuild⟩

end StepLang.Expr
