import StepLang.CommandLine.InspectCommand
import StepLang.Proofs.Compilation
import StepLang.Proofs.Completion
import StepLang.Proofs.RoundTrip

/-!
# Normal forms of expressions

An expression without a hole is written as the text of a data tree, and that tree is read as the expression
again. So all sources of one expression have a common normal form, what the expression is written as.
-/

namespace StepLang

namespace Numeral

theorem int_eq_ofChars (z : Int) : ∃ cs, int z = .ofChars cs ∧ Datum.Numeric cs := by
  have hdigits : ∀ c ∈ Nat.toDigits 10 z.natAbs, c.isDigit = true :=
    fun c hc => Nat.isDigit_of_mem_toDigits (by decide) (by decide) hc
  unfold int
  split
  · refine ⟨'-' :: Nat.toDigits 10 z.natAbs, by rw [nat_eq]; rfl, ['-'], _, rfl, ?_,
      Nat.toDigits_ne_nil, hdigits⟩
    exact .inr (.inr rfl)
  · exact ⟨Nat.toDigits 10 z.natAbs, nat_eq _, [], _, rfl, .inl rfl, Nat.toDigits_ne_nil, hdigits⟩

end Numeral

namespace Datum

def plain (c : Char) : Bool := Text.isPrintable c && !Scanner.isDelimiter c

theorem plain_of_isDigit {c : Char} (h : c.isDigit = true) : plain c = true := by
  have hall : ∀ d : Fin 10, plain (Nat.digitChar d) = true := by decide
  obtain ⟨d, rfl⟩ := Numeral.exists_digitChar h
  exact hall d

theorem atomic_of_plain {cs : List Char} (hne : cs ≠ []) (h : cs.all plain = true) : Atomic cs := by
  have hplain : ∀ c ∈ cs, Text.isPrintable c = true ∧ Scanner.isDelimiter c = false := by
    intro c hc
    simpa [plain] using List.all_eq_true.mp h c hc
  refine ⟨?_, fun c hc => Scanner.isDelimiter_eq_false_iff.mp (hplain c hc).2⟩
  cases cs with
  | nil => exact absurd rfl hne
  | cons c rest => exact ⟨c, rest, rfl, (hplain c List.mem_cons_self).1⟩

theorem atomic_of_numeric {cs : List Char} (h : Numeric cs) : Atomic cs := by
  obtain ⟨sign, digits, rfl, hsign, hne, hdigits⟩ := h
  refine atomic_of_plain (by simp [hne]) ?_
  have hall : digits.all plain = true := List.all_eq_true.mpr fun c hc => plain_of_isDigit (hdigits c hc)
  rw [List.all_append, hall, Bool.and_true]
  rcases hsign with rfl | rfl | rfl
  · rfl
  · rfl
  · rfl

theorem readable_symbol {cs : List Char} (hne : cs ≠ []) (h : cs.all plain = true)
    (hinteger : Scanner.isInteger cs = false) : (symbol (.ofChars cs)).Readable := by
  refine .atom _ (atomic_of_plain hne h) (.inr ⟨rfl, fun hnumeric => ?_⟩)
  rw [Scanner.isInteger_iff.mpr hnumeric] at hinteger
  cases hinteger

theorem eq_atom_of_unplaced {d : Datum} {kind : AtomKind} {text : Text}
    (h : d.unplaced = .atom kind text .none) :
    ∃ pos, d = .atom kind text pos := by
  cases d with
  | missing => simp [unplaced] at h
  | atom kind' text' pos =>
    rw [unplaced] at h
    cases h
    exact ⟨pos, rfl⟩
  | list items pos => simp [unplaced] at h

theorem eq_list_of_unplaced {d : Datum} {items : List Datum} (h : d.unplaced = .list items .none) :
    ∃ parts pos, d = .list parts pos ∧ parts.map unplaced = items := by
  cases d with
  | missing => simp [unplaced] at h
  | atom kind text pos => simp [unplaced] at h
  | list parts pos =>
    rw [unplaced] at h
    cases h
    exact ⟨parts, pos, rfl, rfl⟩

theorem read_newline {source : Text} {d : Datum} (h : read source = .ok d) :
    read (source ++ [Text.newline]) = .ok d := by
  have hjoin := Token.scan_join source []
  have houtcome := read_outcome source
  rw [h] at houtcome
  cases houtcome with
  | @value body pos _ hscan hd =>
    have hempty : Token.scan [] = .ok [⟨.eof, [], .start⟩] := rfl
    simp only [hscan, hempty, List.dropLast_concat, List.map_singleton] at hjoin
    rw [read_of_scan hjoin, ofTokens_of_value hd]
    rfl

end Datum

namespace Expr

/-- The tree that an expression is read from. -/
def toDatum : Expr → Datum
  | hole => .missing
  | num n => .integer (Numeral.int n.toInt)
  | apply op e => .list [.symbol op.name, toDatum e] .none

theorem textFrom_eq {e : Expr} {n : Int32} (h : e.literal? = some n) (front closers : Text) :
    e.textFrom front closers = front.reverse ++ (e.toDatum.written ++ closers) := by
  induction e generalizing front closers with
  | hole => cases h
  | num m =>
    rw [textFrom, toDatum, Datum.integer, Datum.written]
  | apply op e ih =>
    rw [textFrom, ih h, toDatum, Datum.written_list]
    simp [Datum.writtenItems, Datum.symbol, Datum.written]

theorem text_eq_render {e : Expr} {n : Int32} (h : e.literal? = some n) : e.text = e.toDatum.render := by
  rw [text, textFrom_eq h, Datum.render_eq_written, List.append_nil]
  rfl

theorem readable_name (op : UnaryOp) : (Datum.symbol op.name).Readable := by
  cases op with
  | add1 => exact @Datum.readable_symbol ['a', 'd', 'd', '1'] (by simp) rfl rfl
  | sub1 => exact @Datum.readable_symbol ['s', 'u', 'b', '1'] (by simp) rfl rfl

theorem readable_toDatum {e : Expr} {n : Int32} (h : e.literal? = some n) : e.toDatum.Readable := by
  induction e with
  | hole => cases h
  | num m =>
    obtain ⟨cs, hcs, hnumeric⟩ := Numeral.int_eq_ofChars m.toInt
    rw [toDatum, Datum.integer, hcs]
    exact .atom _ (Datum.atomic_of_numeric hnumeric) (.inl ⟨rfl, hnumeric⟩)
  | apply op e ih =>
    rw [toDatum]
    exact .list _ (List.forall_mem_cons.mpr ⟨readable_name op, List.forall_mem_singleton.mpr (ih h)⟩)

theorem ofLiteral_int (n : Int32) (pos : Position) : ofLiteral (Numeral.int n.toInt) pos = .ok (num n) := by
  have hlimit : (Literal.signedLimit 32 : Int) = 2 ^ 31 := rfl
  have hlo := Int32.le_toInt n
  have hhi := Int32.toInt_lt n
  rw [ofLiteral, Literal.decimal?_int (by decide) (by omega) (by omega)]
  simp only [Int32.ofInt_toInt]

theorem ofDatumUnder_of_unplaced {e : Expr} {n : Int32} (h : e.literal? = some n) {d : Datum}
    (hd : d.unplaced = e.toDatum.unplaced) (ops : List UnaryOp) : ofDatumUnder ops d = .ok (wrap ops e) := by
  induction e generalizing d ops with
  | hole => cases h
  | num m =>
    rw [toDatum, Datum.integer, Datum.unplaced] at hd
    obtain ⟨pos, rfl⟩ := Datum.eq_atom_of_unplaced hd
    rw [ofDatumUnder, ofLiteral_int]
  | apply op e ih =>
    rw [toDatum, Datum.unplaced] at hd
    obtain ⟨parts, pos, rfl, hparts⟩ := Datum.eq_list_of_unplaced hd
    simp only [List.map_cons, List.map_nil, List.map_eq_cons_iff, List.map_eq_nil_iff] at hparts
    obtain ⟨head, _, rfl, hhead, operand, _, rfl, hoperand, rfl⟩ := hparts
    rw [Datum.symbol, Datum.unplaced] at hhead
    obtain ⟨namePos, rfl⟩ := Datum.eq_atom_of_unplaced hhead
    rw [ofDatumUnder, operator, UnaryOp.ofName?_name]
    exact ih h hoperand (op :: ops)

theorem parse_text {e : Expr} {n : Int32} (h : e.literal? = some n) : parse e.text = .ok e := by
  obtain ⟨d, hread, hd⟩ := Datum.read_written (readable_toDatum h)
  have hdatum := ofDatumUnder_of_unplaced h hd []
  rw [text_eq_render h, Datum.render_eq_written, parse, hread]
  simp only [ofDatum, hdatum]
  rfl

theorem ofBytes_text {e : Expr} {n : Int32} (h : e.literal? = some n) :
    Text.ofBytes e.text.toBytes = e.text := by
  rw [text_eq_render h, Datum.render_eq_written]
  exact Text.ofBytes_toBytes (readable_toDatum h).isValid

theorem parse_newline {source : Text} {e : Expr} (h : parse source = .ok e) :
    parse (source ++ [Text.newline]) = .ok e := by
  cases hread : Datum.read source with
  | error e' => simp [parse, hread] at h
  | ok d =>
    rw [parse, hread] at h
    rw [parse, Datum.read_newline hread]
    exact h

end Expr

theorem compileProgram_eq_of_parse {source other : Text} (h : Expr.parse source = Expr.parse other) :
    compileProgram source = compileProgram other := by
  rw [compileProgram, compileProgram, compile, compile, h]

namespace InspectCommand

theorem showExpression_eq_ok_iff {source shown : Text} :
    showExpression source = .ok shown ↔ ∃ e, Expr.parse source = .ok e ∧
    shown = e.text ++ [Text.newline] := by
  rw [showExpression]
  cases Expr.parse source with
  | error e => simp
  | ok e =>
    constructor
    · rintro ⟨⟩
      exact ⟨e, rfl, rfl⟩
    · rintro ⟨_, ⟨⟩, rfl⟩
      rfl

end InspectCommand

/-- What an expression without a hole is written as, also in bytes, is read as the expression. So what is
shown of a source is a source of the same program of which the same is shown, and it is shown of no other
expression. -/
theorem parse_text_normalForm :
    (∀ (e : Expr) (n : Int32), e.literal? = some n →
      Expr.parse e.text = .ok e ∧ Text.ofBytes e.text.toBytes = e.text) ∧
    ∀ source e, Expr.parse source = .ok e →
      Expr.parse e.text = .ok e ∧ compileProgram e.text = compileProgram source ∧
      ∃ shown, InspectCommand.showExpression source = .ok shown ∧
      compileProgram shown = compileProgram source ∧
        InspectCommand.showExpression shown = .ok shown ∧
        ∀ other, InspectCommand.showExpression other = .ok shown ↔ Expr.parse other = .ok e := by
  refine ⟨fun e n h => ⟨Expr.parse_text h, Expr.ofBytes_text h⟩, ?_⟩
  intro source e he
  obtain ⟨n, hn⟩ := Expr.literal?_parse he
  have htext := Expr.parse_text hn
  have hshown := Expr.parse_newline htext
  refine ⟨htext, compileProgram_eq_of_parse (htext.trans he.symm), e.text ++ [Text.newline], ?_, ?_, ?_, ?_⟩
  · exact InspectCommand.showExpression_eq_ok_iff.mpr ⟨e, he, rfl⟩
  · exact compileProgram_eq_of_parse (hshown.trans he.symm)
  · exact InspectCommand.showExpression_eq_ok_iff.mpr ⟨e, hshown, rfl⟩
  · intro other
    refine ⟨fun h => ?_, fun h => InspectCommand.showExpression_eq_ok_iff.mpr ⟨e, h, rfl⟩⟩
    obtain ⟨e', he', hsame⟩ := InspectCommand.showExpression_eq_ok_iff.mp h
    obtain ⟨n', hn'⟩ := Expr.literal?_parse he'
    have hother := Expr.parse_text hn'
    rw [← List.append_cancel_right hsame, htext] at hother
    exact he'.trans hother.symm

theorem parse_text_normalForm_least :
    Expr.literal? (.apply .add1 (.apply .sub1 (.num (-2147483648)))) = some (-2147483648) ∧
      Expr.parse "(add1 (sub1 -2147483648))" = .ok (.apply .add1 (.apply .sub1 (.num (-2147483648)))) ∧
      Expr.parse "[add1 ; one more\n (sub1 -2147483648)]" =
      .ok (.apply .add1 (.apply .sub1 (.num (-2147483648)))) ∧
      compileProgram "(add1 (sub1 -2147483648))" =
      compileProgram "[add1 ; one more\n (sub1 -2147483648)]" := by
  have hsource : Expr.parse "[add1 ; one more\n (sub1 -2147483648)]" =
      .ok (.apply .add1 (.apply .sub1 (.num (-2147483648)))) := rfl
  have htext :
      Expr.text (.apply .add1 (.apply .sub1 (.num (-2147483648)))) = "(add1 (sub1 -2147483648))" := by
    decide +kernel
  have hparse :=
    (parse_text_normalForm.1 (.apply .add1 (.apply .sub1 (.num (-2147483648)))) (-2147483648) rfl).1
  have hprogram := (parse_text_normalForm.2 _ _ hsource).2.1
  rw [htext] at hparse hprogram
  exact ⟨rfl, hparse, hsource, hprogram⟩

end StepLang
