import StepLang.Compile
import StepLang.CommandLine.Flags
import StepLang.Execution
import StepLang.Files.FileSystem

/-!
# The compile command

Compiles a source file to an assembly file, shows the assembly when asked to, and runs it when asked to.
-/

namespace StepLang

structure CompileOptions where
  input : Text
  output : Text
  run : Bool
  showAssembly : Bool
  maxSteps : Int64

structure Outcome where
  exit : Nat
  stdout : Text
  stderr : Text
  files : FileSystem

namespace CompileCommand

def defaults : CompileOptions := ⟨[], [], false, false, 0⟩

def flags : List (Flag CompileOptions) :=
  [⟨"in", .text fun t o => { o with input := t }⟩,
   ⟨"out", .text fun t o => { o with output := t }⟩,
   ⟨"run", .truth fun b o => { o with run := b }⟩,
   ⟨"show-asm", .truth fun b o => { o with showAssembly := b }⟩,
   ⟨"max-steps", .int fun n o => { o with maxSteps := n }⟩]

def usage : Text :=
  "Usage of adder:\n" ++
  "  -in string\n    \tinput program file path\n" ++
  "  -max-steps int\n    \temulator step limit for -run (0 means unlimited)\n" ++
  "  -out string\n    \toutput assembly file path (default: input with .s extension)\n" ++
  "  -run\n    \trun the generated assembly on the emulator and print rax\n" ++
  "  -show-asm\n    \tprint the generated assembly to stdout\n"

def misuse (message : Option Text) (fs : FileSystem) : Outcome :=
  let complaint : Text := match message with
    | some m => m ++ "\n"
    | none => []
  ⟨2, [], complaint ++ usage, fs⟩

def failure (stdout message : Text) (fs : FileSystem) : Outcome := ⟨1, stdout, message ++ "\n", fs⟩

/-- The input is named by its flag, or else by the one argument that follows the flags. -/
def inputOf (options : CompileOptions) (arguments : List Text) : Option Text :=
  if options.input ≠ [] then some options.input
  else
    match arguments with
    | [path] => some path
    | _ => none

def outputOf (options : CompileOptions) (input : Text) : Text :=
  if options.output = [] then Path.withExtension input ".s" else options.output

def report (options : CompileOptions) (input output program : Text) (fs : FileSystem) : Outcome :=
  let compiled : Text := "compiled " ++ input ++ " -> " ++ output ++ "\n"
  let shown : Text := if options.showAssembly then compiled ++ program else compiled
  if options.run then
    match (execute program Listing.entryLabel options.maxSteps).result with
    | .error e => failure shown ("run failed for " ++ output.quoted ++ ": " ++ e.message) fs
    | .ok n => ⟨0, shown ++ ("rax = " ++ Numeral.int n.toInt ++ "\n"), [], fs⟩
  else ⟨0, shown, [], fs⟩

def compileFile (options : CompileOptions) (input : Text) (fs : FileSystem) : Outcome :=
  match fs.read input with
  | .error e => failure [] e.message fs
  | .ok source =>
    match compileProgram source with
    | .error e => failure [] (input ++ ": compilation failed: " ++ e.message) fs
    | .ok program =>
      let output := outputOf options input
      match fs.write output program with
      | (fs, .error e) => failure [] e.message fs
      | (fs, .ok ()) => report options input output program fs

def paths (arguments : List Text) : List Text :=
  match Flag.parse flags defaults arguments with
  | .error _ => []
  | .ok (options, arguments) =>
    match inputOf options arguments with
    | none => []
    | some input => [input, outputOf options input]

def run (arguments : List Text) (fs : FileSystem) : Outcome :=
  match Flag.parse flags defaults arguments with
  | .error e => misuse e.message? fs
  | .ok (options, arguments) =>
    match inputOf options arguments with
    | none => misuse (some "nothing to do: provide -in <file> or a single input path") fs
    | some input => compileFile options input fs

end CompileCommand

end StepLang
