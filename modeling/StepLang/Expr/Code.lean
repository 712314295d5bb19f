import StepLang.Expr.Basic
import StepLang.Listing

/-!
# Code for expressions

The literal goes into the accumulator, and each operator adjusts the accumulator by one, innermost first.
-/

namespace StepLang

def accumulator : Text := "rax"

def UnaryOp.mnemonic : UnaryOp → Text
  | add1 => "add"
  | sub1 => "sub"

def UnaryOp.statement (op : UnaryOp) : Statement := ⟨op.mnemonic, accumulator, "1"⟩

namespace Expr

/-- The code of the expression, with `later` behind it. -/
def codeThen (later : Listing) : Expr → Except HoleFault Listing
  | hole => .error .generating
  | num n => .ok (⟨"mov", accumulator, Numeral.int n.toInt⟩ :: later)
  | apply op e => codeThen (op.statement :: later) e

def code (e : Expr) : Except HoleFault Listing := codeThen [] e

end Expr

end StepLang
