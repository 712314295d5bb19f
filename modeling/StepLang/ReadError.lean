import StepLang.Token.Basic

/-!
# Errors of reading
-/

namespace StepLang

inductive ReadFault where
  | emptyInput
  | unexpectedChar (c : Char)
  | unexpectedToken (kind : TokenKind)
  | unclosed (opener : Text)
  | unexpectedClose (closer : Text)
  | mismatchedClose (closer opener : Text) (opened : Position)
  | trailing (lexeme : Text)
  deriving DecidableEq

structure ReadError where
  pos : Position
  fault : ReadFault
  deriving DecidableEq

def ReadFault.message : ReadFault → Text
  | emptyInput => "expected an expression"
  | unexpectedChar c => "unexpected character " ++ Text.quotedChar c
  | unexpectedToken kind => "unexpected token " ++ kind.name
  | unclosed opener => "unclosed " ++ opener.quoted
  | unexpectedClose closer => "unexpected " ++ closer.quoted
  | mismatchedClose closer opener opened =>
    closer.quoted ++ " closes " ++ opener.quoted ++ " opened at " ++ opened.text
  | trailing lexeme => "unexpected " ++ lexeme.quoted ++ " after expression"

/-- What kind of fault it is, in words that do not name the input. -/
def ReadFault.summary : ReadFault → Text
  | emptyInput => "empty input"
  | unexpectedChar _ => "unexpected character"
  | unexpectedToken _ => "unexpected character"
  | unclosed _ => "unexpected end of input"
  | unexpectedClose _ => "unexpected closing bracket"
  | mismatchedClose _ _ _ => "mismatched closing bracket"
  | trailing _ => "trailing input after expression"

def ReadError.message (e : ReadError) : Text := e.pos.blame ++ e.fault.message

/-- The input stopped inside a bracket, so more input may complete it. -/
def ReadError.isIncomplete (e : ReadError) : Bool :=
  match e.fault with
  | .unclosed _ => true
  | _ => false

end StepLang
