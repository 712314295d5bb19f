import StepLang.Text.Numeral

/-!
# Expressions

A literal under a chain of operators, each of which moves the value by one. In an expression made by hand the
literal may be missing.
-/

namespace StepLang

inductive UnaryOp where
  | add1
  | sub1
  deriving DecidableEq

namespace UnaryOp

def name : UnaryOp → Text
  | add1 => "add1"
  | sub1 => "sub1"

def ofName? (t : Text) : Option UnaryOp :=
  if t = "add1" then some add1 else if t = "sub1" then some sub1 else none

def delta : UnaryOp → Int64
  | add1 => 1
  | sub1 => -1

end UnaryOp

inductive Expr where
  | hole
  | num (n : Int32)
  | apply (op : UnaryOp) (operand : Expr)
  deriving DecidableEq

inductive HoleFault where
  | evaluating
  | generating
  deriving DecidableEq

def HoleFault.message : HoleFault → Text
  | evaluating => "eval: unexpected node <nil>"
  | generating => "codegen: unexpected node <nil>"

namespace Expr

/-- Puts operators around an expression, the first of the list innermost. -/
def wrap : List UnaryOp → Expr → Expr
  | [], e => e
  | op :: ops, e => wrap ops (apply op e)

/-- Writes the expression behind `written`, which stands backwards, and before the brackets that close it. -/
def textFrom (written closers : Text) : Expr → Text
  | hole => written.reverse ++ ("<nil>" ++ closers)
  | num n => written.reverse ++ (Numeral.int n.toInt ++ closers)
  | apply op e => textFrom (.char ' ' :: (op.name.reverse ++ (.char '(' :: written))) (.char ')' :: closers) e

def text (e : Expr) : Text := textFrom [] [] e

/-- The value plus `adjust`, modulo the width of a word. -/
def evalFrom (adjust : Int64) : Expr → Except HoleFault Int64
  | hole => .error .evaluating
  | num n => .ok (n.toInt64 + adjust)
  | apply op e => evalFrom (adjust + op.delta) e

def eval (e : Expr) : Except HoleFault Int64 := evalFrom 0 e

end Expr

end StepLang
