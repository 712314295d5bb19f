import StepLang.Text.Basic

/-!
# Paths

A path is written with slashes between its elements. Resolved, it is the list of names that lead to a place
from the root.
-/

namespace StepLang

/-- The names from the root to a place. -/
abbrev Place := List Text

namespace Path

def slash : Glyph := .char '/'

def elements (p : Text) : List Text := p.splitOnP (· = slash)

def isAbsolute (p : Text) : Bool := p.head? = some slash

def origin (work : Place) (p : Text) : Place := if isAbsolute p then [] else work

/-- One element further, by the names alone: `..` takes the last name off, whatever is there. -/
def advance (here : Place) (element : Text) : Place :=
  if element = [] ∨ element = "." then here
  else if element = ".." then here.dropLast
  else here ++ [element]

/-- The place that a path names when nothing is looked up on the way. -/
def resolve (work : Place) (p : Text) : Place := (elements p).foldl advance (origin work p)

def ofPlace (place : Place) : Text := slash :: [slash].intercalate place

def parent (place : Place) : Place := place.dropLast

def dot : Glyph := .char '.'

/-- The path with the extension of its last element replaced; an extension starts at the last dot. -/
def withExtension (p extension : Text) : Text :=
  let backwards := p.reverse
  let last := backwards.takeWhile (· ≠ slash)
  if last.contains dot then
    (backwards.drop ((last.takeWhile (· ≠ dot)).length + 1)).reverse ++ extension
  else p ++ extension

end Path

end StepLang
