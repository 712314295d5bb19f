import StepLang.Assembly.Error
import StepLang.Text.Blank
import StepLang.Text.Case
import StepLang.Text.Letter

/-!
# Lines of assembly text

A line holds any number of labels, each behind which stands a colon, then at most one command, and ends at a
semicolon. The words of a command are set apart by blanks and commas.
-/

namespace StepLang

/-- A mnemonic in upper case, and the operands as they are written. -/
structure Command where
  mnemonic : Text
  operands : List Text
  deriving DecidableEq

structure Line where
  labels : List Text
  command : Option Command
  deriving DecidableEq

namespace Line

def beginsName : Glyph → Bool
  | .char c => Text.isLetter c || c = '_' || c = '.'
  | .stray _ => false

def continuesName : Glyph → Bool
  | .char c => Text.isLetter c || Text.isDecimalDigit c || c = '_' || c = '.'
  | .stray _ => false

def isName : Text → Bool
  | [] => false
  | g :: rest => beginsName g && rest.all continuesName

def beforeComment (t : Text) : Text := t.takeWhile (· ≠ .char ';')

def colon : Glyph := .char ':'

def isSpaceOrTab (g : Glyph) : Bool := g = .char ' ' || g = .char '\t'

/-- Takes labels off the front, and gives them with the text behind them. What stands before a colon is a
command and no label when it holds a space or a tab, or is empty. -/
def takeLabels (found : List Text) (t : Text) : Except LineFault (List Text × Text) :=
  match _h : t.dropWhile (· ≠ colon) with
  | [] => .ok (found.reverse, t)
  | _ :: after =>
    let name := Text.trim (t.takeWhile (· ≠ colon))
    if t.head? = some colon || name.any isSpaceOrTab then .ok (found.reverse, t)
    else if isName name then takeLabels (name :: found) (Text.trim after)
    else .error (.invalidLabel name)
termination_by t.length
decreasing_by
  have shorter := (List.dropWhile_sublist (l := t) (· ≠ colon)).length_le
  have trimmed := Text.length_trim_le after
  rw [_h, List.length_cons] at shorter
  omega

def spaced (g : Glyph) : Glyph := if g = .char ',' then .char ' ' else g

def commandOf (t : Text) : Option Command :=
  match Text.words (t.map spaced) with
  | [] => none
  | mnemonic :: operands => some ⟨mnemonic.upper, operands⟩

def parse (t : Text) : Except LineFault Line :=
  match takeLabels [] (Text.trim (beforeComment t)) with
  | .error e => .error e
  | .ok (labels, rest) => .ok ⟨labels, commandOf rest⟩

end Line

end StepLang
