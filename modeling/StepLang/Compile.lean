import StepLang.Expr.Code
import StepLang.Expr.OfDatum

/-!
# From source to listing
-/

namespace StepLang

inductive SourceError where
  | read (e : ReadError)
  | form (e : FormError)
  | hole (e : HoleFault)
  deriving DecidableEq

namespace SourceError

def cause : SourceError → Text
  | read e => e.message
  | form e => e.message
  | hole e => e.message

def message : SourceError → Text
  | read e => "read error: " ++ e.message
  | e => e.cause

end SourceError

def Expr.parse (source : Text) : Except SourceError Expr :=
  match Datum.read source with
  | .error e => .error (.read e)
  | .ok d =>
    match Expr.ofDatum d with
    | .error e => .error (.form e)
    | .ok e => .ok e

def Expr.compile (e : Expr) : Except SourceError Listing :=
  match e.code with
  | .error e => .error (.hole e)
  | .ok code => .ok code

def compile (source : Text) : Except SourceError Listing :=
  match Expr.parse source with
  | .error e => .error e
  | .ok e => e.compile

def compileProgram (source : Text) : Except SourceError Text :=
  match compile source with
  | .error e => .error e
  | .ok code => .ok code.program

end StepLang
