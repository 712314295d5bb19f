import StepLang.Assembly.Content

/-!
# Assembling

A text is read twice. The first reading surveys it: where its labels are and what it exports. If every
export is a label, the second reading puts the encodings together. An assembler remembers the labels and
exports of all texts that were given to it, also of those that failed part way. The code of an object comes
from its own text alone.
-/

namespace StepLang

structure Object where
  code : List UInt8
  symbols : List (Text × Nat)
  globals : List Text
  /-- The offset of every instruction with the number of its line, in ascending order. -/
  sourceMap : List (Nat × Nat)
  deriving DecidableEq

structure Assembler where
  /-- Newest first. -/
  labels : List (Text × Nat)
  /-- Newest first. -/
  globals : List Text
  deriving DecidableEq

def Assembler.empty : Assembler := ⟨[], []⟩

def Assembler.undefined? (a : Assembler) : Option Text :=
  a.globals.reverse.find? fun name => (a.labels.lookup name).isNone

/-- The first reading: what is remembered, and the address that was reached. -/
structure Survey where
  known : Assembler
  address : Nat

namespace Survey

def start (known : Assembler) : Survey := ⟨known, 0⟩

/-- Puts labels at the current address, until one is taken. -/
def define (s : Survey) : List Text → Survey × Except LineFault Unit
  | [] => (s, .ok ())
  | name :: rest =>
    if (s.known.labels.lookup name).isSome then (s, .error (.duplicateLabel name))
    else define { s with known.labels := (name, s.address) :: s.known.labels } rest

def count (s : Survey) : Content → Survey
  | .nothing => s
  | .textSection => s
  | .exports names => { s with known.globals := names.reverse ++ s.known.globals }
  | .code _ bytes => { s with address := s.address + bytes.length }

def takeLine (s : Survey) (t : Text) : Survey × Except LineFault Unit :=
  match Line.parse t with
  | .error e => (s, .error e)
  | .ok line =>
    match s.define line.labels with
    | (s, .error e) => (s, .error e)
    | (s, .ok ()) =>
      match line.content with
      | .error e => (s, .error e)
      | .ok content => (s.count content, .ok ())

def takeLines (s : Survey) (number : Nat) : List Text → Survey × Except AssemblyError Unit
  | [] => (s, .ok ())
  | t :: rest =>
    match s.takeLine t with
    | (s, .error e) => (s, .error (.line number e))
    | (s, .ok ()) => takeLines s (number + 1) rest

end Survey

/-- The second reading: what the survey left, and the encodings and their lines, newest first. -/
structure Draft where
  known : Assembler
  address : Nat
  chunks : List (List UInt8)
  sourceMap : List (Nat × Nat)

namespace Draft

def start (known : Assembler) : Draft := ⟨known, 0, [], []⟩

def place (d : Draft) (number : Nat) : Content → Draft
  | .code _ bytes =>
    ⟨d.known, d.address + bytes.length, bytes :: d.chunks, (d.address, number) :: d.sourceMap⟩
  | _ => d

/-- Labels and directives are passed over, whatever they hold. -/
def takeLine (d : Draft) (number : Nat) (t : Text) : Except LineFault Draft :=
  match Line.parse t with
  | .error e => .error e
  | .ok line =>
    match line.command with
    | none => .ok d
    | some c =>
      if c.isDirective then .ok d
      else
        match c.instruction with
        | .error e => .error e
        | .ok content => .ok (d.place number content)

def takeLines (d : Draft) (number : Nat) : List Text → Except AssemblyError Draft
  | [] => .ok d
  | t :: rest =>
    match d.takeLine number t with
    | .error e => .error (.line number e)
    | .ok d => takeLines d (number + 1) rest

def toObject (d : Draft) : Object :=
  ⟨d.chunks.reverse.flatten, d.known.labels, d.known.globals.reverse, d.sourceMap.reverse⟩

end Draft

def Assembler.assemble (a : Assembler) (source : Text) : Assembler × Except AssemblyError Object :=
  match (Survey.start a).takeLines 1 source.lines with
  | (s, .error e) => (s.known, .error e)
  | (s, .ok ()) =>
    match s.known.undefined? with
    | some name => (s.known, .error (.undefinedGlobal name))
    | none =>
      match (Draft.start s.known).takeLines 1 source.lines with
      | .error e => (s.known, .error e)
      | .ok d => (s.known, .ok d.toObject)

def assemble (source : Text) : Except AssemblyError Object := (Assembler.empty.assemble source).2

namespace Object

/-- The offset of a label; the empty name stands for the start. -/
def entry? (o : Object) (label : Text) : Option Nat := if label = [] then some 0 else o.symbols.lookup label

/-- The line of the instruction at an offset, or zero where none starts. -/
def line (o : Object) (offset : Int) : Nat :=
  match o.sourceMap.find? fun entry => (entry.1 : Int) = offset with
  | some (_, number) => number
  | none => 0

end Object

end StepLang
