import StepLang.Position

/-!
# Data trees

The trees that sources are read into. A tree made by hand may have gaps, where nothing stands, and atoms of
a kind that reading never gives.
-/

namespace StepLang

inductive AtomKind where
  | integer
  | symbol
  | unknown
  deriving DecidableEq

inductive Datum where
  | missing
  | atom (kind : AtomKind) (text : Text) (pos : Position)
  | list (items : List Datum) (pos : Position)

instance : Inhabited Datum := ⟨.missing⟩

inductive DatumKind where
  | atom (kind : AtomKind)
  | list
  deriving DecidableEq

def AtomKind.name : AtomKind → Text
  | integer => "integer"
  | symbol => "symbol"
  | unknown => "unknown"

def DatumKind.name : DatumKind → Text
  | atom kind => kind.name
  | list => "list"

def DatumKind.isAtom : DatumKind → Bool
  | atom _ => true
  | list => false

namespace Datum

def integer (text : Text) : Datum := atom .integer text .none

def symbol (text : Text) : Datum := atom .symbol text .none

def kind? : Datum → Option DatumKind
  | missing => none
  | atom kind _ _ => some (.atom kind)
  | list _ _ => some .list

end Datum

end StepLang
