import StepLang.Assembly.Assembler
import StepLang.Machine.Run

/-!
# Executing assembly text
-/

namespace StepLang

inductive ExecutionError where
  | assembly (e : AssemblyError)
  | entry (label : Text)
  | load (e : LoadError)
  | run (e : RunError)
  deriving DecidableEq

def ExecutionError.message : ExecutionError → Text
  | assembly e => "assembly error: " ++ e.message
  | entry label => "entry label '" ++ label ++ "' is not defined"
  | load e => e.message
  | run e => "runtime error: " ++ e.message

structure Execution where
  log : List Executed
  result : Except ExecutionError Int64

/-- Assembles the text and runs it on a fresh machine from a label on. -/
def execute (source label : Text) (budget : Int64) : Execution :=
  match assemble source with
  | .error e => ⟨[], .error (.assembly e)⟩
  | .ok object =>
    match object.entry? label with
    | none => ⟨[], .error (.entry label)⟩
    | some entry =>
      match Machine.initial.load object.code entry with
      | .error e => ⟨[], .error (.load e)⟩
      | .ok machine =>
        let ending := machine.runUntil budget
        match ending.result with
        | .error e => ⟨ending.log, .error (.run e)⟩
        | .ok () => ⟨ending.log, .ok ending.machine.rax⟩

end StepLang
