import StepLang.Compile
import StepLang.Execution
import StepLang.Text.Case

/-!
# Sessions

A session evaluates entries and obeys commands, which begin with a colon. All it remembers between entries is
whether it shows assembly.
-/

namespace StepLang

structure Session where
  showAssembly : Bool
  deriving DecidableEq

inductive EntryError where
  | source (e : SourceError)
  | execution (e : ExecutionError)
  deriving DecidableEq

def EntryError.message : EntryError → Text
  | source e => e.message
  | execution e => e.message

structure Reply where
  session : Session
  output : Text
  quit : Bool

structure Evaluation where
  output : Text
  error : Option EntryError

namespace Session

def start : Session := ⟨false⟩

def help : Text :=
  "REPL commands:\n" ++
  "  :asm     Toggle printing the generated assembly\n" ++
  "  :help    Show this text\n" ++
  "  :quit    Exit the REPL\n"

def isCommand (entry : Text) : Bool := (Text.trim entry).head? = some (.char ':')

def onOff (b : Bool) : Text := if b then "on" else "off"

/-- Commands are told apart without regard to case and to blanks around them. -/
def command (s : Session) (line : Text) : Reply :=
  let name := Text.trim (Text.lowerToAscii line)
  if name = ":quit" ∨ name = ":q" then ⟨s, [], true⟩
  else if name = ":asm" then
    let shown := !s.showAssembly
    ⟨⟨shown⟩, "assembly output " ++ onOff shown ++ "\n", false⟩
  else if name = ":help" then ⟨s, help, false⟩
  else ⟨s, "unknown command. Type :help for commands.\n", false⟩

def red (t : Text) : Text := "\x1b[31m" ++ t ++ "\x1b[0m"

def blue (t : Text) : Text := "\x1b[94m" ++ t ++ "\x1b[0m"

def assemblyLine (line : Text) : Text := blue ("  " ++ line)

def evaluate (s : Session) (source : Text) : Evaluation :=
  match compile source with
  | .error e => ⟨[], some (.source e)⟩
  | .ok code =>
    let shown : Text := if s.showAssembly then Text.unlines (code.lines.map assemblyLine) else []
    match (execute code.program Listing.entryLabel 0).result with
    | .error e => ⟨shown, some (.execution e)⟩
    | .ok n => ⟨shown ++ Numeral.int n.toInt ++ "\n", none⟩

/-- An entry is complete unless more input could close a bracket of it. Commands are always complete. -/
def isComplete (entry : Text) : Bool :=
  isCommand entry ||
    match Datum.read entry with
    | .error e => !e.isIncomplete
    | .ok _ => true

end Session

end StepLang
