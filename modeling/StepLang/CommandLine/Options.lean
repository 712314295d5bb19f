import StepLang.CommandLine.Values

/-!
# Options

An option has a name behind two dashes and may have a letter behind one. Letters can be run together until one
that takes a value; the value follows directly, behind an equals sign, or as the next argument. Options and
plain arguments mix freely up to `--`.
-/

namespace StepLang

structure CommandOption (α : Type) where
  name : Text
  letter : Option Char
  setting : Setting α

inductive OptionError where
  | badForm (argument : Text)
  | unknownName (name : Text)
  | unknownLetter (letter : Char) (letters : Text)
  | nameNeedsValue (argument : Text)
  | letterNeedsValue (letter : Char) (letters : Text)
  | badValue (value shown : Text) (truth : Bool) (fault : LiteralFault)
  deriving DecidableEq

namespace OptionError

def reason : LiteralFault → Text
  | .malformed => "invalid syntax"
  | .outOfRange => "value out of range"

def message : OptionError → Text
  | badForm argument => "bad flag syntax: " ++ argument
  | unknownName name => "unknown flag: --" ++ name
  | unknownLetter letter letters =>
    "unknown shorthand flag: " ++ Text.quotedChar letter ++ " in -" ++ letters
  | nameNeedsValue argument => "flag needs an argument: " ++ argument
  | letterNeedsValue letter letters =>
    "flag needs an argument: " ++ Text.quotedChar letter ++ " in -" ++ letters
  | badValue value shown truth fault =>
    "invalid argument " ++ value.quoted ++ " for " ++ shown.quoted ++ " flag: strconv." ++
      (if truth then "ParseBool" else "ParseInt" : String) ++ ": parsing " ++ value.quoted ++ ": " ++
      reason fault

end OptionError

namespace CommandOption

open Argument

variable {α : Type}

def shown (o : CommandOption α) : Text :=
  match o.letter with
  | some c => "-" ++ Text.ofChars [c] ++ ", --" ++ o.name
  | none => "--" ++ o.name

def storeValue (o : CommandOption α) (value : Text) (a : α) : Except OptionError α :=
  match o.setting.store value a with
  | .ok a => .ok a
  | .error fault => .error (.badValue value o.shown o.setting.isTruth fault)

def findName? (options : List (CommandOption α)) (name : Text) : Option (CommandOption α) :=
  options.find? (·.name = name)

def findLetter? (options : List (CommandOption α)) (g : Glyph) : Option (CommandOption α) :=
  options.find? fun o => o.letter.map Glyph.char = some g

/-- The letter that a message shows for a glyph, which is the first byte of its spelling. -/
def letterOf (g : Glyph) : Char :=
  match g.bytes with
  | b :: _ => Char.ofNat b.toNat
  | [] => g.toChar

/-- The settings after an argument, and whether it took the next argument for its value. -/
structure Taken (α : Type) where
  settings : α
  tookNext : Bool

def Taken.left (t : Taken α) (rest : List Text) : List Text := if t.tookNext then rest.tail else rest

theorem Taken.length_left_le (t : Taken α) (rest : List Text) : (t.left rest).length ≤ rest.length := by
  unfold left
  split
  · rw [List.length_tail]
    omega
  · exact Nat.le_refl _

def take (o : CommandOption α) (a : α) (value : Text) (tookNext : Bool) : Except OptionError (Taken α) :=
  match o.storeValue value a with
  | .error e => .error e
  | .ok a => .ok ⟨a, tookNext⟩

def takeName (options : List (CommandOption α)) (a : α) (next : Option Text) (body : Text) :
    Except OptionError (Taken α) :=
  if body.head? = some dash ∨ body.head? = some equals then .error (.badForm ("--" ++ body))
  else
    let name := body.takeWhile (· ≠ equals)
    match findName? options name with
    | none => .error (.unknownName name)
    | some o =>
      match body.dropWhile (· ≠ equals) with
      | _ :: value => o.take a value false
      | [] =>
        if o.setting.isTruth then o.take a "true" false
        else
          match next with
          | some value => o.take a value true
          | none => .error (.nameNeedsValue ("--" ++ body))

/-- Letters behind one dash. From `test.` on they are passed over. -/
def takeLetters (options : List (CommandOption α)) (a : α) (next : Option Text) :
    Text → Except OptionError (Taken α)
  | [] => .ok ⟨a, false⟩
  | g :: more =>
    if (Text.ofString "test.").isPrefixOf (g :: more) then .ok ⟨a, false⟩
    else
      match findLetter? options g with
      | none => .error (.unknownLetter (letterOf g) (g :: more))
      | some o =>
        if more.head? = some equals ∧ 1 < more.length then o.take a more.tail false
        else if o.setting.isTruth then
          match o.storeValue "true" a with
          | .error e => .error e
          | .ok a => takeLetters options a next more
        else if more ≠ [] then o.take a more false
        else
          match next with
          | some value => o.take a value true
          | none => .error (.letterNeedsValue (letterOf g) (g :: more))

inductive Shape where
  | plain
  | ending
  | named (body : Text)
  | lettered (letters : Text)

def Shape.ofArgument (t : Text) : Shape :=
  match t with
  | a :: b :: rest =>
    if a ≠ dash then .plain
    else if b ≠ dash then .lettered (b :: rest)
    else if rest = [] then .ending
    else .named rest
  | _ => .plain

/-- Goes on with the settings and the plain arguments so far, which stand newest first. -/
def parseFrom (options : List (CommandOption α)) (a : α) (plain : List Text) :
    List Text → Except OptionError (α × List Text)
  | [] => .ok (a, plain.reverse)
  | argument :: rest =>
    match Shape.ofArgument argument with
    | .plain => parseFrom options a (argument :: plain) rest
    | .ending => .ok (a, plain.reverse ++ rest)
    | .named body =>
      match takeName options a rest.head? body with
      | .error e => .error e
      | .ok t => parseFrom options t.settings plain (t.left rest)
    | .lettered letters =>
      match takeLetters options a rest.head? letters with
      | .error e => .error e
      | .ok t => parseFrom options t.settings plain (t.left rest)
termination_by arguments => arguments.length
decreasing_by
  · exact Nat.lt_succ_self _
  · exact Nat.lt_succ_of_le (t.length_left_le rest)
  · exact Nat.lt_succ_of_le (t.length_left_le rest)

def parse (options : List (CommandOption α)) (a : α) (arguments : List Text) :
    Except OptionError (α × List Text) :=
  parseFrom options a [] arguments

end CommandOption

end StepLang
