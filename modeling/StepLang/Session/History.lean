import StepLang.Text.Basic

/-!
# Histories of entries

A history keeps the latest thousand entries, and an entry that repeats the one before it only once. It is
saved with a line for each entry.
-/

namespace StepLang

/-- Lines as they are read from a stream: a line ends at a line break, which a carriage return may precede,
and the last line may lack it. -/
def Text.streamLines (t : Text) : List Text :=
  let pieces := t.lines
  let ended := pieces.dropLast.map fun line =>
    if line.getLast? = some (.char '\r') then line.dropLast else line
  match pieces.getLast? with
  | some [] => ended
  | some last => ended ++ [last]
  | none => ended

structure History where
  entries : List Text
  deriving DecidableEq

namespace History

def empty : History := ⟨[]⟩

def limit : Nat := 1000

def push (h : History) (entry : Text) : History := ⟨(entry :: h.entries).take limit⟩

def add (h : History) (entry : Text) : History := if h.entries.head? = some entry then h else h.push entry

def longestLine : Nat := 4095

def isReadable (line : Text) : Bool := line.isValid && line.toBytes.length ≤ longestLine

/-- Reads a saved history up to the first line that is no valid text or is too long. -/
def load (saved : Text) : History :=
  (saved.streamLines.take (saved.lines.takeWhile isReadable).length).foldl push empty

def save (h : History) : Text := Text.unlines h.entries.reverse

end History

end StepLang
