import StepLang.Proofs.Compilation
import StepLang.Proofs.Numerals

/-!
# The grammar of expressions

A datum is an expression when it is a literal of 32 bits, or an operator with an expression as its operand.
The relation below says so datum by datum, with the error of every datum that is neither, and the chain of
operators that is walked from the outside gives what the relation gives from the inside.
-/

namespace StepLang

theorem UnaryOp.name_eq_of_ofName? {name : Text} {op : UnaryOp} (h : ofName? name = some op) :
    name = op.name := by
  unfold ofName? at h
  split at h
  · cases h
    assumption
  split at h
  · cases h
    assumption
  · cases h

theorem UnaryOp.ofName?_eq_none {name : Text} (h : ∀ op : UnaryOp, name ≠ op.name) : ofName? name = none := by
  cases hname : ofName? name with
  | none => rfl
  | some op => exact absurd (name_eq_of_ofName? hname) (h op)

namespace Literal

theorem inRange_iff {z : Int} : InRange 32 z ↔ ¬ (z < -0x80000000 ∨ 0x7FFFFFFF < z) := by
  have hlimit : (signedLimit 32 : Int) = 0x80000000 := rfl
  rw [InRange, hlimit]
  omega

theorem inRange_toInt (n : Int32) : InRange 32 n.toInt := ⟨Int32.le_toInt n, Int32.toInt_lt n⟩

end Literal

/-- Operators around operators, down to a literal of 32 bits. -/
inductive Datum.Chain : Datum → Prop where
  | literal {text : Text} {n : Int32} (pos : Position) (h : Literal.Denotes text n.toInt) :
      Chain (.atom .integer text pos)
  | apply {operand : Datum} (op : UnaryOp) (namePos pos : Position) (h : Chain operand) :
      Chain (.list [.atom .symbol op.name namePos, operand] pos)

namespace Expr

/-- What a datum is built into. An operator hands on the error of its operand as it is; any other list is to
blame itself, or the name at its head when that names no operator. -/
inductive Builds : Datum → Except FormError Expr → Prop where
  | missing : Builds .missing (.error (.shape .none "<nil>" .missing))
  | literal {text : Text} {n : Int32} (pos : Position) (h : Literal.Denotes text n.toInt) :
      Builds (.atom .integer text pos) (.ok (num n))
  | range {text : Text} {z : Int} (pos : Position) (h : Literal.Denotes text z)
      (hz : z < -0x80000000 ∨ 0x7FFFFFFF < z) : Builds (.atom .integer text pos) (.error (.range pos text))
  | overlong {text : Text} (pos : Position) (h : Literal.Overlong 0xFFFFFFFF text) :
      Builds (.atom .integer text pos) (.error (.range pos text))
  | malformed {text : Text} (pos : Position) (hshort : ¬ Literal.Overlong 0xFFFFFFFF text)
      (h : ∀ z, ¬ Literal.Denotes text z) :
      Builds (.atom .integer text pos) (.error (.shape pos text .malformedInteger))
  | notInteger {kind : AtomKind} (text : Text) (pos : Position) (h : kind ≠ .integer) :
      Builds (.atom kind text pos) (.error (.shape pos text (.notInteger (.atom kind))))
  | length {items : List Datum} (pos : Position) (h : items.length ≠ 2) :
      Builds (.list items pos) (.error (.shape pos (Datum.list items pos).render (.length items.length)))
  | notSymbol {head : Datum} (operand : Datum) (pos : Position)
      (h : ∀ name namePos, head ≠ .atom .symbol name namePos) :
      Builds (.list [head, operand] pos)
        (.error (.shape pos (Datum.list [head, operand] pos).render .operatorNotSymbol))
  | unknown {name : Text} (namePos : Position) (operand : Datum) (pos : Position)
      (h : ∀ op : UnaryOp, name ≠ op.name) :
      Builds (.list [.atom .symbol name namePos, operand] pos)
      (.error (.shape namePos name (.unknownOperator name)))
  | apply {operand : Datum} {r : Except FormError Expr} (op : UnaryOp) (namePos pos : Position)
      (h : Builds operand r) :
      Builds (.list [.atom .symbol op.name namePos, operand] pos) (r.map (Expr.apply op))

theorem exists_builds_integer (text : Text) (pos : Position) : ∃ r, Builds (.atom .integer text pos) r := by
  cases hread : Literal.decimal? 32 text with
  | ok z =>
    obtain ⟨hz, hrange⟩ := (Literal.decimal?_eq_ok_iff (by decide)).mp hread
    have hvalue : (Int32.ofInt z).toInt = z := Int32.toInt_ofInt_of_le hrange.1 hrange.2
    rw [← hvalue] at hz
    exact ⟨_, .literal pos hz⟩
  | error fault =>
    cases fault with
    | malformed =>
      obtain ⟨hshort, hnone⟩ := (Literal.decimal?_eq_malformed_iff (by decide)).mp hread
      exact ⟨_, .malformed pos hshort hnone⟩
    | outOfRange =>
      rcases Literal.decimal?_eq_outOfRange_iff.mp hread with hlong | ⟨z, hz, hrange⟩
      · exact ⟨_, .overlong pos hlong⟩
      · exact ⟨_, .range pos hz (not_not.mp (mt Literal.inRange_iff.mpr hrange))⟩

theorem head_of_operator {items : List Datum} {pos : Position} {head : Datum} {op : UnaryOp}
    (h : operator items pos head = .ok op) : ∃ namePos, head = .atom .symbol op.name namePos := by
  unfold operator at h
  split at h
  · rename_i name namePos
    cases hname : UnaryOp.ofName? name with
    | none =>
      rw [hname] at h
      cases h
    | some known =>
      rw [hname] at h
      cases h
      exact ⟨namePos, by rw [UnaryOp.name_eq_of_ofName? hname]⟩
  · cases h

theorem builds_of_operator_error {head operand : Datum} {pos : Position} {e : FormError}
    (h : operator [head, operand] pos head = .error e) : Builds (.list [head, operand] pos) (.error e) := by
  unfold operator at h
  split at h
  · rename_i name namePos
    cases hname : UnaryOp.ofName? name with
    | none =>
      rw [hname] at h
      cases h
      apply Builds.unknown
      rintro op rfl
      rw [UnaryOp.ofName?_name] at hname
      cases hname
    | some known =>
      rw [hname] at h
      cases h
  · rename_i hsymbol
    cases h
    exact .notSymbol operand pos hsymbol

theorem exists_builds (ops : List UnaryOp) (d : Datum) : ∃ r, Builds d r := by
  fun_induction ofDatumUnder ops d with
  | case1 => exact ⟨_, .missing⟩
  | case2 ops text pos e he => exact exists_builds_integer text pos
  | case3 ops text pos e he => exact exists_builds_integer text pos
  | case4 ops kind text pos hkind => exact ⟨_, .notInteger text pos hkind⟩
  | case5 ops head operand pos op hop ih =>
    obtain ⟨namePos, rfl⟩ := head_of_operator hop
    obtain ⟨r, hr⟩ := ih
    exact ⟨_, .apply op namePos pos hr⟩
  | case6 ops head operand pos e he => exact ⟨_, builds_of_operator_error he⟩
  | case7 ops items pos hitems =>
    refine ⟨_, .length pos ?_⟩
    intro hlength
    obtain ⟨head, operand, rfl⟩ := List.length_eq_two.mp hlength
    exact hitems head operand rfl

/-- The operators read so far only wait for the expression under them: they are put around it when there is
one, and an error passes them by. -/
theorem Builds.ofDatumUnder_eq {d : Datum} {r : Except FormError Expr} (h : Builds d r) (ops : List UnaryOp) :
    ofDatumUnder ops d = r.map (wrap ops) := by
  induction h generalizing ops with
  | missing => rfl
  | @literal text n pos h =>
    have hread : Literal.decimal? 32 text = .ok n.toInt :=
      (Literal.decimal?_eq_ok_iff (by decide)).mpr ⟨h, Literal.inRange_toInt n⟩
    rw [ofDatumUnder, ofLiteral, hread]
    simp only [Int32.ofInt_toInt]
    rfl
  | @range text z pos h hz =>
    have hread : Literal.decimal? 32 text = .error .outOfRange :=
      Literal.decimal?_eq_outOfRange_iff.mpr (.inr ⟨z, h, fun hrange => Literal.inRange_iff.mp hrange hz⟩)
    rw [ofDatumUnder, ofLiteral, hread]
    rfl
  | @overlong text pos h =>
    have hread : Literal.decimal? 32 text = .error .outOfRange :=
      Literal.decimal?_eq_outOfRange_iff.mpr (.inl h)
    rw [ofDatumUnder, ofLiteral, hread]
    rfl
  | @malformed text pos hshort h =>
    have hread : Literal.decimal? 32 text = .error .malformed :=
      (Literal.decimal?_eq_malformed_iff (by decide)).mpr ⟨hshort, h⟩
    rw [ofDatumUnder, ofLiteral, hread]
    rfl
  | notInteger text pos hkind =>
    rw [ofDatumUnder]
    · rfl
    · exact hkind
  | length pos hlength =>
    rw [ofDatumUnder]
    · rfl
    · rintro head operand rfl
      exact hlength rfl
  | notSymbol operand pos hsymbol =>
    rw [ofDatumUnder, operator]
    · rfl
    · exact hsymbol
  | unknown namePos operand pos hname =>
    rw [ofDatumUnder, operator, UnaryOp.ofName?_eq_none hname]
    rfl
  | @apply operand r op namePos pos h ih =>
    rw [ofDatumUnder, operator, UnaryOp.ofName?_name]
    simp only [ih (op :: ops)]
    cases r with
    | error e => rfl
    | ok e => rfl

theorem ofDatum_eq_iff {d : Datum} {r : Except FormError Expr} : ofDatum d = r ↔ Builds d r := by
  have hbuilt : ∀ r', Builds d r' → ofDatum d = r' := by
    intro r' h
    have heq := h.ofDatumUnder_eq []
    rw [ofDatum, heq]
    cases r' with
    | error e => rfl
    | ok e => rfl
  constructor
  · rintro rfl
    obtain ⟨r, hr⟩ := exists_builds [] d
    rw [hbuilt r hr]
    exact hr
  · exact hbuilt r

theorem chain_of_builds {d : Datum} {r : Except FormError Expr} (h : Builds d r) {e : Expr} (hr : r = .ok e) :
    d.Chain := by
  induction h generalizing e with
  | literal pos h => exact .literal pos h
  | @apply operand r op namePos pos h ih =>
    cases r with
    | error fault => cases hr
    | ok inner => exact .apply op namePos pos (ih rfl)
  | _ => cases hr

theorem builds_of_chain {d : Datum} (h : d.Chain) : ∃ e, Builds d (.ok e) := by
  induction h with
  | literal pos h => exact ⟨_, .literal pos h⟩
  | apply op namePos pos h ih =>
    obtain ⟨e, he⟩ := ih
    exact ⟨_, .apply op namePos pos he⟩

/-- A datum is built into what the grammar says, its error included. So it is an expression exactly when it
is a chain of operators down to a literal of 32 bits, and the expression has no hole. -/
theorem ofDatum_builds (d : Datum) :
    (∀ r, ofDatum d = r ↔ Builds d r) ∧ ((∃ e, ofDatum d = .ok e) ↔ d.Chain) ∧
      ∀ e, ofDatum d = .ok e → ∃ n, e.literal? = some n := by
  refine ⟨fun r => ofDatum_eq_iff, ⟨?_, ?_⟩, fun e he => literal?_ofDatumUnder he⟩
  · intro ⟨e, he⟩
    exact chain_of_builds (ofDatum_eq_iff.mp he) rfl
  · intro h
    obtain ⟨e, he⟩ := builds_of_chain h
    exact ⟨e, ofDatum_eq_iff.mpr he⟩

/-- The error of a literal is that of the whole, at the place of the literal. -/
theorem ofDatum_builds_nested :
    (∃ d, Datum.read "(add1\n (sub1 -2147483648))" = .ok d ∧ d.Chain ∧
        Builds d (.ok (.apply .add1 (.apply .sub1 (.num (-2147483648)))))) ∧
      ∃ d, Datum.read "(add1\n (sub1 2147483648))" = .ok d ∧ ¬ d.Chain ∧
        Builds d (.error (.range ⟨2, 8⟩ "2147483648")) := by
  refine ⟨⟨_, rfl, ?_, ?_⟩, _, rfl, ?_, ?_⟩
  · exact (ofDatum_builds _).2.1.mp ⟨_, rfl⟩
  · exact ((ofDatum_builds _).1 _).mp rfl
  · intro h
    obtain ⟨e, he⟩ := (ofDatum_builds _).2.1.mpr h
    cases he
  · exact ((ofDatum_builds _).1 _).mp rfl

end Expr

end StepLang
