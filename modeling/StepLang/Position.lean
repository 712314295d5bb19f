import StepLang.Text.Numeral

/-!
# Positions

Lines and columns count from one. Data that was not read from a source is at line and column zero.
-/

namespace StepLang

structure Position where
  line : Int
  column : Int
  deriving DecidableEq

namespace Position

def start : Position := ⟨1, 1⟩

def none : Position := ⟨0, 0⟩

def after (p : Position) (c : Char) : Position :=
  if c = '\n' then ⟨p.line + 1, 1⟩ else ⟨p.line, p.column + 1⟩

def text (p : Position) : Text := Numeral.int p.line ++ ":" ++ Numeral.int p.column

def blame (p : Position) : Text := "line " ++ p.text ++ ": "

end Position

end StepLang
