import StepLang.Datum.Read
import StepLang.Datum.Render
import StepLang.Expr.Basic
import StepLang.Text.Literal

/-!
# Expressions from data trees

An operator is written as a list of its name and its operand, and a literal as an integer of 32 bits.
-/

namespace StepLang

inductive ShapeFault where
  | length (n : Nat)
  | operatorNotSymbol
  | unknownOperator (name : Text)
  | missing
  | notInteger (kind : DatumKind)
  | malformedInteger
  deriving DecidableEq

/-- Why a datum is no expression: its shape, shown with the datum to blame, or the size of its literal. -/
inductive FormError where
  | shape (pos : Position) (form : Text) (fault : ShapeFault)
  | range (pos : Position) (literal : Text)
  deriving DecidableEq

def ShapeFault.message : ShapeFault → Text
  | length n => "expected (add1 <expr>) or (sub1 <expr>), got a list of " ++ Numeral.nat n ++ " elements"
  | operatorNotSymbol => "operator must be a symbol"
  | unknownOperator name => "unknown operator " ++ name.quoted
  | missing => "missing expression"
  | notInteger kind => "expected an integer literal, got " ++ kind.name
  | malformedInteger => "malformed integer literal"

/-- Only a datum that was read from a source has a position to blame. -/
def Position.blameIfRead (p : Position) : Text := if 0 < p.line then p.blame else []

def FormError.message : FormError → Text
  | shape pos form fault => pos.blameIfRead ++ "syntax error: " ++ fault.message ++ ": " ++ form
  | range pos literal => pos.blameIfRead ++ "integer literal " ++ literal ++ " out of 32-bit range"

namespace Expr

def ofLiteral (text : Text) (pos : Position) : Except FormError Expr :=
  match Literal.decimal? 32 text with
  | .ok n => .ok (num (.ofInt n))
  | .error .outOfRange => .error (.range pos text)
  | .error .malformed => .error (.shape pos text .malformedInteger)

def operator (items : List Datum) (pos : Position) (head : Datum) : Except FormError UnaryOp :=
  match head with
  | .atom .symbol name headPos =>
    match UnaryOp.ofName? name with
    | some op => .ok op
    | none => .error (.shape headPos name (.unknownOperator name))
  | _ => .error (.shape pos (Datum.list items pos).render .operatorNotSymbol)

/-- The expression of a datum under the operators read so far, innermost first. -/
def ofDatumUnder (ops : List UnaryOp) : Datum → Except FormError Expr
  | .missing => .error (.shape .none "<nil>" .missing)
  | .atom .integer text pos =>
    match ofLiteral text pos with
    | .ok e => .ok (wrap ops e)
    | .error e => .error e
  | .atom kind text pos => .error (.shape pos text (.notInteger (.atom kind)))
  | .list [head, operand] pos =>
    match operator [head, operand] pos head with
    | .ok op => ofDatumUnder (op :: ops) operand
    | .error e => .error e
  | .list items pos => .error (.shape pos (Datum.list items pos).render (.length items.length))

def ofDatum (d : Datum) : Except FormError Expr := ofDatumUnder [] d

end Expr

end StepLang
