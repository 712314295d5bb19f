import StepLang.Text.Basic

/-!
# Assembly listings

A statement is an instruction as it is written: an operation and up to two operands. A listing is a list of
statements, and the program around it makes its first statement the entry point.
-/

namespace StepLang

structure Statement where
  op : Text
  dst : Text
  src : Text
  deriving DecidableEq

def Statement.text (s : Statement) : Text :=
  if s.dst = [] then s.op
  else if s.src = [] then s.op ++ " " ++ s.dst
  else s.op ++ " " ++ s.dst ++ ", " ++ s.src

abbrev Listing := List Statement

namespace Listing

def lines (l : Listing) : List Text := l.map Statement.text

def assembly (l : Listing) : Text := [Text.newline].intercalate l.lines

def entryLabel : Text := "our_code_starts_here"

def header : List Text := ["section .text", "global " ++ entryLabel, entryLabel ++ ":"]

def indented (line : Text) : Text := "  " ++ line

/-- The label at the front of the code is exported, and the code ends in a return. -/
def program (l : Listing) : Text :=
  Text.unlines (header ++ l.lines.map indented ++ [indented "ret"])

end Listing

end StepLang
