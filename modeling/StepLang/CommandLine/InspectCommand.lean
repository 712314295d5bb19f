import StepLang.Assembly.Dump
import StepLang.CommandLine.Options
import StepLang.Compile
import StepLang.Execution
import StepLang.Files.FileSystem

/-!
# The inspect command

Shows one stage of compiling a source: its tokens, its data tree, its expression, its assembly, its machine
code, or the value that it leaves in the accumulator.
-/

namespace StepLang

inductive Stage where
  | tokens
  | datum
  | expression
  | assembly
  | machineCode
  | run
  deriving DecidableEq

structure InspectOptions where
  expression : Text
  bare : Bool
  output : Text
  trace : Bool
  maxSteps : Int64
  help : Bool

inductive InspectError where
  | unknownCommand (name : Text)
  | option (e : OptionError)
  | tooManyArguments (count : Nat)
  | twoInputs
  | noInput
  | file (e : FileError)
  | scan (e : ReadError)
  | read (e : ReadError)
  | parse (e : SourceError)
  | compile (e : SourceError)
  | assemble (e : AssemblyError)
  | execute (e : ExecutionError)

def InspectError.message : InspectError → Text
  | unknownCommand name => "unknown command " ++ name.quoted ++ " for \"adderc\""
  | option e => e.message
  | tooManyArguments count => "accepts at most 1 arg(s), received " ++ Numeral.nat count
  | twoInputs => "use either -e or a file argument, not both"
  | noInput => "no input: provide a file argument or -e <expr>"
  | file e => e.message
  | scan e => "lex error: " ++ e.message
  | read e => "read error: " ++ e.message
  | parse e => e.cause
  | compile e => e.message
  | assemble e => "assembly error: " ++ e.message
  | execute e => e.message

structure Inspection where
  stdout : Text
  stderr : Text
  files : FileSystem
  error : Option InspectError

namespace InspectCommand

def stage? (name : Text) : Option Stage :=
  if name = "tokens" then some .tokens
  else if name = "sexp" then some .datum
  else if name = "ast" then some .expression
  else if name = "asm" then some .assembly
  else if name = "hex" then some .machineCode
  else if name = "run" then some .run
  else none

def defaults : InspectOptions := ⟨[], false, [], false, 0, false⟩

def helpOption : CommandOption InspectOptions :=
  ⟨"help", some 'h', .truth fun b o => { o with help := b }⟩

def expressionOption : CommandOption InspectOptions :=
  ⟨"expr", some 'e', .text fun t o => { o with expression := t }⟩

def stageOptions : Stage → List (CommandOption InspectOptions)
  | .assembly =>
    [⟨"bare", none, .truth fun b o => { o with bare := b }⟩,
     ⟨"out", some 'o', .text fun t o => { o with output := t }⟩]
  | .run =>
    [⟨"trace", none, .truth fun b o => { o with trace := b }⟩,
     ⟨"max-steps", none, .int fun n o => { o with maxSteps := n }⟩]
  | _ => []

def optionsOf (stage : Stage) : List (CommandOption InspectOptions) :=
  helpOption :: expressionOption :: stageOptions stage

open Argument in
/-- Before the stage is known, every option without an equals sign is taken to have a value behind it. -/
def expectsValue (t : Text) : Bool :=
  !t.contains equals && t.head? = some dash && (t.tail.head? = some dash || t.toBytes.length = 2)

def isEnding (t : Text) : Bool := t = "--"

/-- The first argument that is neither an option nor the value of one. -/
def stageName? : List Text → Option Text
  | [] => none
  | argument :: rest =>
    if isEnding argument then none
    else if expectsValue argument then
      match rest with
      | _ :: next :: rest => stageName? (next :: rest)
      | _ => none
    else if argument ≠ [] ∧ argument.head? ≠ some Argument.dash then some argument
    else stageName? rest
termination_by arguments => arguments.length

def withoutName (name : Text) : List Text → List Text
  | [] => []
  | argument :: rest =>
    if isEnding argument then argument :: rest
    else if expectsValue argument then
      match rest with
      | [] => [argument]
      | value :: rest => argument :: value :: withoutName name rest
    else if argument = name then rest
    else argument :: withoutName name rest
termination_by arguments => arguments.length

/-- The source is given by its option, or else by the one file argument. -/
def load (fs : FileSystem) (expression : Text) (arguments : List Text) : Except InspectError Text :=
  match expression, arguments with
  | [], [path] =>
    match fs.read path with
    | .error e => .error (.file e)
    | .ok source => .ok source
  | [], _ => .error .noInput
  | source, [] => .ok source
  | _, _ => .error .twoInputs

def success (fs : FileSystem) (stdout stderr : Text) : Inspection := ⟨stdout, stderr, fs, none⟩

def failure (fs : FileSystem) (stderr : Text) (e : InspectError) : Inspection := ⟨[], stderr, fs, some e⟩

def showTokens (source : Text) : Except InspectError Text :=
  match Token.scan source with
  | .error e => .error (.scan e)
  | .ok ts => .ok (.unlines (ts.map Token.text))

def showDatum (source : Text) : Except InspectError Text :=
  match Datum.read source with
  | .error e => .error (.read e)
  | .ok d => .ok (d.render ++ "\n")

def showExpression (source : Text) : Except InspectError Text :=
  match Expr.parse source with
  | .error e => .error (.parse e)
  | .ok e => .ok (e.text ++ "\n")

def showAssembly (bare : Bool) (source : Text) : Except InspectError Text :=
  match compile source with
  | .error e => .error (.compile e)
  | .ok code => .ok (if bare then code.assembly ++ "\n" else code.program)

def showMachineCode (source : Text) : Except InspectError Text :=
  match compileProgram source with
  | .error e => .error (.compile e)
  | .ok program =>
    match assemble program with
    | .error e => .error (.assemble e)
    | .ok object => .ok (.unlines (object.slices.map Slice.text))

def report (fs : FileSystem) : Except InspectError Text → Inspection
  | .error e => failure fs [] e
  | .ok text => success fs text []

def writeTo (fs : FileSystem) (path : Text) : Except InspectError Text → Inspection
  | .error e => failure fs [] e
  | .ok text =>
    match fs.write path text with
    | (fs, .error e) => failure fs [] (.file e)
    | (fs, .ok ()) => success fs [] []

def runSource (fs : FileSystem) (options : InspectOptions) (source : Text) : Inspection :=
  match compileProgram source with
  | .error e => failure fs [] (.compile e)
  | .ok program =>
    let x := execute program Listing.entryLabel options.maxSteps
    let trace := if options.trace then Executed.trace x.log else []
    match x.result with
    | .error e => failure fs trace (.execute e)
    | .ok n => success fs (Numeral.int n.toInt ++ "\n") trace

def inspect (fs : FileSystem) (options : InspectOptions) (source : Text) : Stage → Inspection
  | .tokens => report fs (showTokens source)
  | .datum => report fs (showDatum source)
  | .expression => report fs (showExpression source)
  | .assembly =>
    if options.output = [] then report fs (showAssembly options.bare source)
    else writeTo fs options.output (showAssembly options.bare source)
  | .machineCode => report fs (showMachineCode source)
  | .run => runSource fs options source

def help : Text :=
  "Shows one stage of compiling a program: tokens, sexp, ast, asm, hex or run.\n" ++
  "Every stage takes either a single source file or a program given with -e.\n"

def runStage (fs : FileSystem) (stage : Stage) (arguments : List Text) : Inspection :=
  match CommandOption.parse (optionsOf stage) defaults arguments with
  | .error e => failure fs [] (.option e)
  | .ok (options, arguments) =>
    if options.help then success fs help []
    else if 1 < arguments.length then failure fs [] (.tooManyArguments arguments.length)
    else
      match load fs options.expression arguments with
      | .error e => failure fs [] e
      | .ok source => inspect fs options source stage

def paths (arguments : List Text) : List Text :=
  match stageName? arguments with
  | none => []
  | some name =>
    match stage? name with
    | none => []
    | some stage =>
      match CommandOption.parse (optionsOf stage) defaults (withoutName name arguments) with
      | .error _ => []
      | .ok (options, arguments) => options.output :: arguments

def run (arguments : List Text) (fs : FileSystem) : Inspection :=
  match stageName? arguments with
  | some name =>
    match stage? name with
    | some stage => runStage fs stage (withoutName name arguments)
    | none => failure fs [] (.unknownCommand name)
  | none =>
    match CommandOption.parse [helpOption] defaults arguments with
    | .error e => failure fs [] (.option e)
    | .ok _ => success fs help []

end InspectCommand

end StepLang
