import StepLang.Session.Basic
import StepLang.Session.History

/-!
# Dialogues

A dialogue prompts for lines and gathers them into entries: an entry goes on until it is complete. Commands
are obeyed, other entries are recorded and evaluated, and blank ones are passed over.
-/

namespace StepLang

structure Dialogue where
  session : Session
  pending : Text
  history : History
  /-- What was printed, newest first. -/
  output : List Text
  /-- What was printed as errors, newest first. -/
  errors : List Text

namespace Dialogue

def banner : Text := "adder REPL\nCtrl+C cancels input, Ctrl+D exits. Type :help for commands.\n"

def start (history : History) : Dialogue := ⟨.start, [], history, [banner], []⟩

def prompt (d : Dialogue) : Text := if d.pending = [] then "adder> " else "...    "

def print (d : Dialogue) (t : Text) : Dialogue := { d with output := t :: d.output }

def extended (d : Dialogue) (line : Text) : Text :=
  if d.pending = [] then line else d.pending ++ Text.newline :: line

def flattened (entry : Text) : Text := entry.map fun g => if g = Text.newline then .char ' ' else g

def evaluate (d : Dialogue) (entry : Text) : Dialogue :=
  let result := d.session.evaluate entry
  let errors := match result.error with
    | some e => (Session.red e.message ++ "\n") :: d.errors
    | none => d.errors
  { d with history := d.history.add (flattened entry), output := result.output :: d.output, errors := errors }

def enter (d : Dialogue) (entry : Text) : Dialogue × Bool :=
  let trimmed := Text.trim entry
  if trimmed = [] then (d, false)
  else if Session.isCommand entry then
    let reply := d.session.command trimmed
    ({ d with session := reply.session, output := reply.output :: d.output }, reply.quit)
  else (d.evaluate entry, false)

def take (d : Dialogue) (line : Text) : Dialogue × Bool :=
  let entry := d.extended line
  if Session.isComplete entry then { d with pending := [] }.enter entry
  else ({ d with pending := entry }, false)

def leave (d : Dialogue) : Dialogue := d.print "\n"

def run (d : Dialogue) : List Text → Dialogue
  | [] => (d.print d.prompt).leave
  | line :: rest =>
    match (d.print d.prompt).take line with
    | (d, true) => d
    | (d, false) => run d rest

def printed (d : Dialogue) : Text := d.output.reverse.flatten

def complaints (d : Dialogue) : Text := d.errors.reverse.flatten

def converse (input saved : Text) : Dialogue := (start (.load saved)).run input.streamLines

end Dialogue

end StepLang
