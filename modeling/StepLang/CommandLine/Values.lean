import StepLang.Text.Literal
import StepLang.Text.Quoted

/-!
# Values on a command line

Options hold a text, a truth value or an integer of 64 bits, and each knows where its value goes.
-/

namespace StepLang

namespace Argument

def dash : Glyph := .char '-'

def equals : Glyph := .char '='

end Argument

inductive Setting (α : Type) where
  | text (set : Text → α → α)
  | truth (set : Bool → α → α)
  | int (set : Int64 → α → α)

namespace Setting

def truth? (t : Text) : Option Bool :=
  if ["1", "t", "T", "true", "TRUE", "True"].any fun s => Text.ofString s = t then some true
  else if ["0", "f", "F", "false", "FALSE", "False"].any fun s => Text.ofString s = t then some false
  else none

def isTruth {α : Type} : Setting α → Bool
  | truth _ => true
  | _ => false

def store {α : Type} (value : Text) (a : α) : Setting α → Except LiteralFault α
  | text set => .ok (set value a)
  | truth set =>
    match truth? value with
    | some b => .ok (set b a)
    | none => .error .malformed
  | int set =>
    match Literal.marked? 64 value with
    | .ok n => .ok (set (.ofInt n) a)
    | .error e => .error e

end Setting

end StepLang
