import StepLang.Datum.Basic
import StepLang.Token.Scan

/-!
# Reading data trees from tokens

A datum is an atom, or data between an opening bracket and the closing bracket of the same shape. The reader
keeps the lists that are still open and takes one token at a time.
-/

namespace StepLang

/-- A list that is still open, its items newest first. -/
structure OpenList where
  opener : Token
  items : List Datum

def OpenList.closer (o : OpenList) : Text := if o.opener.lexeme = "[" then "]" else ")"

def OpenList.toDatum (o : OpenList) : Datum := .list o.items.reverse o.opener.pos

inductive ReadProgress where
  | done (result : Except ReadError Datum)
  | reading (lists : List OpenList)

/-- A finished datum goes into the innermost open list, or is the result when none is open. -/
def ReadProgress.deliver (d : Datum) : List OpenList → ReadProgress
  | [] => .done (.ok d)
  | o :: outer => .reading (⟨o.opener, d :: o.items⟩ :: outer)

def ReadError.ended (pos : Position) : List OpenList → ReadError
  | [] => ⟨pos, .emptyInput⟩
  | o :: _ => ⟨o.opener.pos, .unclosed o.opener.lexeme⟩

def ReadProgress.close (t : Token) : List OpenList → ReadProgress
  | [] => .done (.error ⟨t.pos, .unexpectedClose t.lexeme⟩)
  | o :: outer =>
    if t.lexeme = o.closer then .deliver o.toDatum outer
    else .done (.error ⟨t.pos, .mismatchedClose t.lexeme o.opener.lexeme o.opener.pos⟩)

def ReadProgress.take (lists : List OpenList) (t : Token) : ReadProgress :=
  match t.kind with
  | .eof => .done (.error (.ended t.pos lists))
  | .opening => .reading (⟨t, []⟩ :: lists)
  | .closing => .close t lists
  | .integer => .deliver (.atom .integer t.lexeme t.pos) lists
  | .symbol => .deliver (.atom .symbol t.lexeme t.pos) lists
  | .other code => .done (.error ⟨t.pos, .unexpectedToken (.other code)⟩)

/-- Tokens that wait to be read, and the position that an end of input behind them has. -/
structure TokenStream where
  waiting : List Token
  endPos : Position

namespace TokenStream

def ofTokens (ts : List Token) : TokenStream :=
  ⟨ts, match ts.getLast? with
    | some t => t.pos
    | none => .start⟩

def readInto (endPos : Position) (lists : List OpenList) : List Token → Except ReadError Datum × List Token
  | [] => (.error (.ended endPos lists), [])
  | t :: rest =>
    match ReadProgress.take lists t with
    | .done result => (result, rest)
    | .reading lists => readInto endPos lists rest

/-- Reads one datum. The tokens that were looked at are gone, also after an error. -/
def next (s : TokenStream) : Except ReadError Datum × TokenStream :=
  let (result, rest) := readInto s.endPos [] s.waiting
  (result, ⟨rest, s.endPos⟩)

end TokenStream

namespace Datum

/-- The one datum that the tokens hold; only an end of input may follow it. -/
def ofTokens (ts : List Token) : Except ReadError Datum :=
  match (TokenStream.ofTokens ts).next with
  | (.error e, _) => .error e
  | (.ok d, after) =>
    match after.waiting with
    | [] => .ok d
    | t :: _ => if t.kind = .eof then .ok d else .error ⟨t.pos, .trailing t.lexeme⟩

def read (source : Text) : Except ReadError Datum :=
  match Token.scan source with
  | .error e => .error e
  | .ok ts => ofTokens ts

end Datum

end StepLang
