import StepLang.ReadError
import StepLang.Text.Blank

/-!
# Scanning a source into tokens

The scanner takes one character at a time. Between tokens it skips blanks and comments; an atom is the
longest run of characters that are no delimiters, and only its first character has to be printable.
-/

namespace StepLang

/-- What the scanner is inside of. The characters of an unfinished atom stand newest first. -/
inductive ScanMode where
  | gap
  | comment
  | atom (start : Position) (read : List Char)

structure Scanner where
  pos : Position
  mode : ScanMode
  /-- The finished tokens, newest first. -/
  tokens : List Token

namespace Scanner

def start : Scanner := ⟨.start, .gap, []⟩

def isDelimiter (c : Char) : Bool :=
  c = '(' || c = ')' || c = '[' || c = ']' || c = ';' || Text.isBlank c

def isSign (c : Char) : Bool := c = '+' || c = '-'

/-- An optional sign, then one or more ASCII digits. -/
def isInteger (cs : List Char) : Bool :=
  let digits := match cs with
    | c :: rest => if isSign c then rest else cs
    | [] => []
  !digits.isEmpty && digits.all Char.isDigit

def atomToken (pos : Position) (cs : List Char) : Token :=
  ⟨if isInteger cs then .integer else .symbol, .ofChars cs, pos⟩

def bracket (kind : TokenKind) (c : Char) (pos : Position) : Token := ⟨kind, .ofChars [c], pos⟩

def closed (s : Scanner) : List Token :=
  match s.mode with
  | .atom start read => atomToken start read.reverse :: s.tokens
  | _ => s.tokens

/-- The first character behind a gap or an atom. -/
def enter (pos : Position) (tokens : List Token) (c : Char) : Except ReadError Scanner :=
  let next := pos.after c
  if Text.isBlank c then .ok ⟨next, .gap, tokens⟩
  else if c = ';' then .ok ⟨next, .comment, tokens⟩
  else if c = '(' || c = '[' then .ok ⟨next, .gap, bracket .opening c pos :: tokens⟩
  else if c = ')' || c = ']' then .ok ⟨next, .gap, bracket .closing c pos :: tokens⟩
  else if Text.isPrintable c then .ok ⟨next, .atom pos [c], tokens⟩
  else .error ⟨pos, .unexpectedChar c⟩

def step (s : Scanner) (c : Char) : Except ReadError Scanner :=
  match s.mode with
  | .gap => enter s.pos s.tokens c
  | .comment => .ok ⟨s.pos.after c, if c = '\n' then .gap else .comment, s.tokens⟩
  | .atom start read =>
    if isDelimiter c then enter s.pos s.closed c
    else .ok ⟨s.pos.after c, .atom start (c :: read), s.tokens⟩

def finish (s : Scanner) : List Token := (⟨.eof, [], s.pos⟩ :: s.closed).reverse

def run (s : Scanner) : List Char → Except ReadError (List Token)
  | [] => .ok s.finish
  | c :: rest =>
    match s.step c with
    | .error e => .error e
    | .ok s => run s rest

end Scanner

def Token.scan (source : Text) : Except ReadError (List Token) :=
  Scanner.start.run (source.map Glyph.toChar)

end StepLang
