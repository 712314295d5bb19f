import StepLang.Position
import StepLang.Text.Quoted

/-!
# Tokens
-/

namespace StepLang

/-- The kinds of token. Tokens made by hand may be of a kind that scanning never gives. -/
inductive TokenKind where
  | eof
  | opening
  | closing
  | integer
  | symbol
  | other (code : Int)
  deriving DecidableEq

def TokenKind.name : TokenKind → Text
  | eof => "EOF"
  | opening => "LPAREN"
  | closing => "RPAREN"
  | integer => "INTEGER"
  | symbol => "SYMBOL"
  | other code => "TokenType(" ++ Numeral.int code ++ ")"

structure Token where
  kind : TokenKind
  lexeme : Text
  pos : Position
  deriving DecidableEq

/-- One row of a token table: the kind, the quoted lexeme and the position, in columns. -/
def Token.text (t : Token) : Text :=
  t.kind.name.padRight 8 ++ " " ++ t.lexeme.quoted.padRight 14 ++ "  " ++ t.pos.text

end StepLang
