import StepLang.Text.Numeral

/-!
# Errors of assembling
-/

namespace StepLang

inductive LineFault where
  | invalidLabel (name : Text)
  | duplicateLabel (name : Text)
  | sectionOperands
  | unsupportedSection (name : Text)
  | globalOperands
  | unknownInstruction (mnemonic : Text)
  | expectsNone (mnemonic : Text)
  | expectsTwo (mnemonic : Text)
  | invalidRegister (word : Text)
  | invalidImmediate (word : Text)
  | immediateRange (word : Text)
  deriving DecidableEq

inductive AssemblyError where
  | line (number : Nat) (fault : LineFault)
  | undefinedGlobal (name : Text)
  deriving DecidableEq

def LineFault.message (number : Nat) (fault : LineFault) : Text :=
  let on : Text := " on line " ++ Numeral.nat number
  match fault with
  | invalidLabel name => "invalid label '" ++ name ++ "'" ++ on
  | duplicateLabel name => "duplicate label '" ++ name ++ "'" ++ on
  | sectionOperands => "section expects exactly one operand" ++ on
  | unsupportedSection name => "unsupported section '" ++ name ++ "'" ++ on
  | globalOperands => "global expects at least one symbol" ++ on
  | unknownInstruction mnemonic => "unknown instruction" ++ on ++ ": " ++ mnemonic
  | expectsNone mnemonic => mnemonic ++ " expects 0 operands" ++ on
  | expectsTwo mnemonic => mnemonic ++ " expects 2 operands" ++ on
  | invalidRegister word => "invalid register '" ++ word ++ "'" ++ on
  | invalidImmediate word => "invalid immediate '" ++ word ++ "'" ++ on
  | immediateRange word => "immediate out of range" ++ on ++ ": " ++ word

def AssemblyError.message : AssemblyError → Text
  | line number fault => fault.message number
  | undefinedGlobal name => "global symbol '" ++ name ++ "' is never defined"

end StepLang
