import StepLang.CommandLine.Values

/-!
# Flags

A flag is named behind one dash or two, and takes its value behind an equals sign or from the next argument. A
truth value is never taken from the next argument. Flags end at the first argument that is none, or at `--`.
-/

namespace StepLang

structure Flag (α : Type) where
  name : Text
  setting : Setting α

inductive FlagError where
  | help
  | badForm (argument : Text)
  | undefined (name : Text)
  | needsValue (name : Text)
  | badTruth (value name : Text)
  | badValue (value name : Text) (fault : LiteralFault)
  deriving DecidableEq

namespace FlagError

def reason : LiteralFault → Text
  | .malformed => "parse error"
  | .outOfRange => "value out of range"

/-- A request for help is no mistake and has nothing to say. -/
def message? : FlagError → Option Text
  | help => none
  | badForm argument => some ("bad flag syntax: " ++ argument)
  | undefined name => some ("flag provided but not defined: -" ++ name)
  | needsValue name => some ("flag needs an argument: -" ++ name)
  | badTruth value name =>
    some ("invalid boolean value " ++ value.quoted ++ " for -" ++ name ++ ": parse error")
  | badValue value name fault =>
    some ("invalid value " ++ value.quoted ++ " for flag -" ++ name ++ ": " ++ reason fault)

end FlagError

namespace Flag

open Argument

def split (t : Text) : Text × Option Text :=
  match t.dropWhile (· ≠ equals) with
  | [] => (t, none)
  | _ :: value => (t.takeWhile (· ≠ equals), some value)

inductive Shape where
  | plain
  | ending
  | bad
  | named (name : Text) (value : Option Text)

def Shape.ofName (t : Text) : Shape :=
  if t = [] ∨ t.head? = some dash ∨ t.head? = some equals then .bad
  else .named (split t).1 (split t).2

def Shape.ofArgument (t : Text) : Shape :=
  match t with
  | a :: b :: rest =>
    if a ≠ dash then .plain
    else if b ≠ dash then .ofName (b :: rest)
    else if rest = [] then .ending
    else .ofName rest
  | _ => .plain

variable {α : Type}

def find? (flags : List (Flag α)) (name : Text) : Option (Flag α) := flags.find? (·.name = name)

def unknown (name : Text) : FlagError :=
  if name = "help" ∨ name = "h" then .help else .undefined name

def storeValue (f : Flag α) (value : Text) (a : α) : Except FlagError α :=
  match f.setting.store value a with
  | .ok a => .ok a
  | .error fault =>
    .error (if f.setting.isTruth then .badTruth value f.name else .badValue value f.name fault)

def parse (flags : List (Flag α)) (a : α) : List Text → Except FlagError (α × List Text)
  | [] => .ok (a, [])
  | argument :: rest =>
    match Shape.ofArgument argument with
    | .plain => .ok (a, argument :: rest)
    | .ending => .ok (a, rest)
    | .bad => .error (.badForm argument)
    | .named name value =>
      match find? flags name, value, rest with
      | none, _, _ => .error (unknown name)
      | some f, some value, rest =>
        match f.storeValue value a with
        | .error e => .error e
        | .ok a => parse flags a rest
      | some f, none, rest =>
        if f.setting.isTruth then
          match f.storeValue "true" a with
          | .error e => .error e
          | .ok a => parse flags a rest
        else
          match rest with
          | [] => .error (.needsValue name)
          | value :: rest =>
            match f.storeValue value a with
            | .error e => .error e
            | .ok a => parse flags a rest
termination_by arguments => arguments.length

end Flag

end StepLang
