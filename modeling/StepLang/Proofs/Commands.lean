import StepLang.CommandLine.CompileCommand
import StepLang.Proofs.Compilation
import StepLang.Proofs.Extensions
import StepLang.Proofs.Files

/-!
# The compile command and the files

The compile command does all of its work or none of it: until the program is there it touches no file and
prints nothing but errors, and then it writes the output file and no other. Where no output is named, that
file is the input itself exactly when the path of the input has the extension of an assembly file.
-/

namespace StepLang

namespace Text

theorem lines_append_newline (t u : Text) : lines (t ++ newline :: u) = lines t ++ lines u :=
  List.splitOnP_append_cons t u (by simp)

theorem lines_concat {line : Text} (h : newline ∉ line) (before : Text) :
    lines (before ++ newline :: (line ++ [newline])) = lines before ++ [line, []] := by
  have hline : lines (unlines [line]) = [line] ++ [[]] := lines_unlines (by simpa using h)
  rw [unlines, List.flatMap_singleton] at hline
  rw [lines_append_newline, hline]
  rfl

end Text

theorem Numeral.newline_notMem_int (z : Int) : Text.newline ∉ int z := by
  intro hmem
  have hblank := ((isWord_int z).2 _ hmem).1
  revert hblank
  decide

theorem Listing.exists_program_eq (l : Listing) : ∃ before, l.program = before ++ [Text.newline] := by
  refine ⟨Text.unlines (header ++ l.lines.map indented) ++ indented "ret", ?_⟩
  simp [program, Text.unlines]

namespace Flag

variable {α : Type} {flags : List (Flag α)} {a b : α} {argument name value : Text} {f : Flag α}

theorem parse_truth (hshape : Shape.ofArgument argument = .named name none)
    (hfind : find? flags name = some f)
    (htruth : f.setting.isTruth = true) (hstore : f.storeValue "true" a = .ok b) (rest : List Text) :
    parse flags a (argument :: rest) = parse flags b rest := by
  rw [parse]
  simp only [hshape, hfind, htruth, hstore, if_true]

theorem parse_value (hshape : Shape.ofArgument argument = .named name (some value))
    (hfind : find? flags name = some f) (hstore : f.storeValue value a = .ok b) (rest : List Text) :
    parse flags a (argument :: rest) = parse flags b rest := by
  rw [parse]
  simp only [hshape, hfind, hstore]

end Flag

/-- One file in the working directory. -/
def FileSystem.holding (name content : Text) : FileSystem :=
  (fresh [("work" : Text)]).put [("work" : Text), name] (.file content)

namespace CompileCommand

/-- What the arguments ask for: the options, and the path of the input. -/
def request? (arguments : List Text) : Option (CompileOptions × Text) :=
  match Flag.parse flags defaults arguments with
  | .error _ => none
  | .ok (options, arguments) => (inputOf options arguments).map fun input => (options, input)

theorem run_of_request {arguments : List Text} {options : CompileOptions} {input : Text}
    (h : request? arguments = some (options, input)) (fs : FileSystem) :
    run arguments fs = compileFile options input fs := by
  rw [request?] at h
  rw [run]
  cases hparse : Flag.parse flags defaults arguments with
  | error e =>
    rw [hparse] at h
    cases h
  | ok found =>
    rw [hparse] at h
    obtain ⟨path, hinput, heq⟩ := Option.map_eq_some_iff.mp h
    cases heq
    simp only [hinput]

end CompileCommand

namespace Outcome

/-- Nothing was done but to complain. -/
structure Refused (o : Outcome) (code : Nat) (fs : FileSystem) : Prop where
  exit : o.exit = code
  stdout : o.stdout = []
  files : o.files = fs

/-- The program was written to the output and to no other place. It was run if that was asked for, and the
exit tells whether the steps were enough; then the last line shows the value of the expression. -/
structure Delivered (o : Outcome) (options : CompileOptions) (output program : Text) (e : Expr)
    (fs : FileSystem) :
    Prop where
  written : o.files.content? (Path.resolve fs.work output) = some program
  others : ∀ place, place ≠ Path.resolve fs.work output → o.files.content? place = fs.content? place
  exit : o.exit =
    if options.run = true ∧ 0 < options.maxSteps.toInt ∧
      options.maxSteps.toInt < e.operators.length + 2 then 1 else 0
  value : options.run = true → o.exit = 0 →
    ∃ v before, e.eval = .ok v ∧ o.stdout.lines = before ++ ["rax = " ++ Numeral.int v.toInt, []]

end Outcome

namespace CompileCommand

theorem refused_of_no_request {arguments : List Text} (h : request? arguments = none) (fs : FileSystem) :
    (run arguments fs).Refused 2 fs := by
  rw [request?] at h
  rw [run]
  cases hparse : Flag.parse flags defaults arguments with
  | error e => exact ⟨rfl, rfl, rfl⟩
  | ok found =>
    rw [hparse] at h
    have hinput := Option.map_eq_none_iff.mp h
    simp only [hinput]
    exact ⟨rfl, rfl, rfl⟩

section CompileFile

variable (options : CompileOptions) {input : Text} {fs : FileSystem}

theorem refused_of_read {e : FileError} (h : fs.read input = .error e) :
    (compileFile options input fs).Refused 1 fs := by
  simp only [compileFile, h]
  exact ⟨rfl, rfl, rfl⟩

variable {source : Text} (hread : fs.read input = .ok source)
include hread

theorem refused_of_compile {e : SourceError} (h : compileProgram source = .error e) :
    (compileFile options input fs).Refused 1 fs := by
  simp only [compileFile, hread, h]
  exact ⟨rfl, rfl, rfl⟩

variable {program : Text} (hprogram : compileProgram source = .ok program)
include hprogram

theorem compileFile_of_write_error {after : FileSystem} {e : FileError}
    (h : fs.write (outputOf options input) program = (after, .error e)) :
    compileFile options input fs = failure [] e.message after := by
  simp only [compileFile, hread, hprogram, h]

theorem compileFile_of_write {after : FileSystem}
    (h : fs.write (outputOf options input) program = (after, .ok ())) :
    compileFile options input fs = report options input (outputOf options input) program after := by
  simp only [compileFile, hread, hprogram, h]

end CompileFile

theorem files_report (options : CompileOptions) (input output program : Text) (fs : FileSystem) :
    (report options input output program fs).files = fs := by
  unfold report
  simp only
  split
  · split
    · rfl
    · rfl
  · rfl

theorem files_compileFile (options : CompileOptions) {input source program : Text} {fs : FileSystem}
    (hread : fs.read input = .ok source) (hprogram : compileProgram source = .ok program) :
    (compileFile options input fs).files = (fs.write (outputOf options input) program).1 := by
  cases hwrite : fs.write (outputOf options input) program with
  | mk after result =>
    cases result with
    | error e =>
      rw [compileFile_of_write_error options hread hprogram hwrite]
      rfl
    | ok =>
      rw [compileFile_of_write options hread hprogram hwrite]
      exact files_report _ _ _ _ _

theorem exists_shown_eq (options : CompileOptions) (input output : Text) (l : Listing) :
    ∃ before, (if options.showAssembly
      then ("compiled " ++ input ++ " -> " ++ output ++ "\n" : Text) ++ l.program
      else "compiled " ++ input ++ " -> " ++ output ++ "\n") = before ++ [Text.newline] := by
  split
  · obtain ⟨before, hprogram⟩ := l.exists_program_eq
    refine ⟨("compiled " ++ input ++ " -> " ++ output ++ "\n" : Text) ++ before, ?_⟩
    rw [hprogram, ← List.append_assoc]
  · exact ⟨_, rfl⟩

/-- All that the report on the program of an expression can be. -/
theorem report_eq (options : CompileOptions) (input output : Text) (e : Expr) (n : Int32) (fs : FileSystem) :
    ∃ before : Text,
      report options input output (Listing.program ((e.instructions n).map Instruction.statement)) fs =
        if options.run = true ∧ 0 < options.maxSteps.toInt ∧
          options.maxSteps.toInt < e.operators.length + 2 then
          failure (before ++ [Text.newline]) ("run failed for " ++ output.quoted ++ ": " ++
            (ExecutionError.run (.limit options.maxSteps (7 + 4 * (options.maxSteps.toInt - 1)))).message) fs
        else if options.run = true then
          ⟨0, before ++ Text.newline :: ("rax = " ++
            Numeral.int (Int64.ofInt (n.toInt + UnaryOp.shift e.operators)).toInt ++ [Text.newline]), [], fs⟩
        else ⟨0, before ++ [Text.newline], [], fs⟩ := by
  obtain ⟨before, hshown⟩ :=
    exists_shown_eq options input output ((e.instructions n).map Instruction.statement)
  refine ⟨before, ?_⟩
  simp only [report, hshown, e.execute_instructions n]
  by_cases hrun : options.run = true
  · by_cases hlimit : 0 < options.maxSteps.toInt ∧ options.maxSteps.toInt < e.operators.length + 2
    · rw [if_pos hrun, if_pos hlimit, if_pos ⟨hrun, hlimit⟩]
    · rw [if_pos hrun, if_neg hlimit, if_neg (fun h => hlimit h.2), if_pos hrun]
      simp only [List.append_assoc, List.singleton_append]
      rfl
  · rw [if_neg hrun, if_neg (fun h => hrun h.1), if_neg hrun]

theorem delivered_report {options : CompileOptions} {output program : Text} {e : Expr} {n : Int32}
    {fs after : FileSystem} (hliteral : e.literal? = some n)
    (hprogram : program = Listing.program ((e.instructions n).map Instruction.statement)) (input : Text)
    (hwrite : fs.write output program = (after, .ok ())) :
    (report options input output program after).Delivered options output program e fs := by
  have hwritten := FileSystem.content?_write hwrite
  have hgrows := fs.grows_write output program
  rw [hwrite] at hgrows
  obtain ⟨before, hreport⟩ := report_eq options input output e n after
  rw [← hprogram] at hreport
  rw [hreport]
  by_cases hlimit :
      options.run = true ∧ 0 < options.maxSteps.toInt ∧ options.maxSteps.toInt < e.operators.length + 2
  · rw [if_pos hlimit]
    refine ⟨hwritten, hgrows.content, (if_pos hlimit).symm, ?_⟩
    intro _ hexit
    cases hexit
  · rw [if_neg hlimit]
    by_cases hrun : options.run = true
    · rw [if_pos hrun]
      refine ⟨hwritten, hgrows.content, (if_neg hlimit).symm, ?_⟩
      intro _ _
      refine ⟨_, before.lines, Expr.eval_eq hliteral, Text.lines_concat ?_ before⟩
      intro hmem
      rcases List.mem_append.mp hmem with hmem | hmem
      · revert hmem
        decide
      · exact Numeral.newline_notMem_int _ hmem
    · rw [if_neg hrun]
      refine ⟨hwritten, hgrows.content, (if_neg hlimit).symm, ?_⟩
      intro h
      exact absurd h hrun

/-- The command does all of its work or none. Where the arguments ask for nothing, the input cannot be read
or the source does not compile, every file is left as it is and nothing is printed but errors. Otherwise the
source is an expression, and once its program could be written it stands in the output, and all other
contents stay. Then the exit is zero, unless the program is to be run with too few steps for it, and the
last line shows the value of the expression. Where the program cannot be written, all contents stay. -/
theorem run_all_or_nothing (arguments : List Text) (fs : FileSystem) :
    (request? arguments = none → (run arguments fs).Refused 2 fs) ∧
      ∀ options input, request? arguments = some (options, input) →
        (∀ error, fs.read input = .error error → (run arguments fs).Refused 1 fs) ∧
        ∀ source, fs.read input = .ok source →
          (∀ error, compileProgram source = .error error → (run arguments fs).Refused 1 fs) ∧
          ∀ program, compileProgram source = .ok program →
            ∃ e listing, Expr.parse source = .ok e ∧ e.code = .ok listing ∧ program = listing.program ∧
              (∀ after, fs.write (outputOf options input) program = (after, .ok ()) →
                (run arguments fs).Delivered options (outputOf options input) program e fs) ∧
              ∀ after error, fs.write (outputOf options input) program = (after, .error error) →
                (run arguments fs).exit = 1 ∧ (run arguments fs).stdout = [] ∧
                ∀ place, (run arguments fs).files.content? place = fs.content? place := by
  refine ⟨fun hrequest => refused_of_no_request hrequest fs, ?_⟩
  intro options input hrequest
  rw [run_of_request hrequest]
  refine ⟨fun error hread => refused_of_read options hread, ?_⟩
  intro source hread
  refine ⟨fun error hcompile => refused_of_compile options hread hcompile, ?_⟩
  intro program hprogram
  obtain ⟨e, hparse⟩ := parse_of_compileProgram hprogram
  obtain ⟨n, hliteral⟩ := Expr.literal?_parse hparse
  have hlisting := Expr.compileProgram_of_literal hparse hliteral
  rw [hprogram] at hlisting
  cases hlisting
  refine ⟨e, _, hparse, Expr.code_eq hliteral, rfl, ?_, ?_⟩
  · intro after hwrite
    rw [compileFile_of_write options hread hprogram hwrite]
    exact delivered_report hliteral rfl input hwrite
  · intro after error hwrite
    rw [compileFile_of_write_error options hread hprogram hwrite]
    exact ⟨rfl, rfl, fun place => (FileSystem.grows_of_write_error hwrite).content place id⟩

/-- Two steps are too few for two instructions and a return, and the output is there all the same. -/
theorem run_all_or_nothing_limited :
    (run ["-run", "-max-steps", "a.snek"] (.holding "a.snek" "(add1 5)")).exit = 2 ∧
      ∃ program, compileProgram "(add1 5)" = .ok program ∧
        (run ["-run", "-max-steps=2", "a.snek"] (.holding "a.snek" "(add1 5)")).exit = 1 ∧
        (run ["-run", "-max-steps=2", "a.snek"] (.holding "a.snek" "(add1 5)")).files.content?
          [("work" : Text), "a.s"] = some program := by
  have hnone : request? ["-run", "-max-steps", "a.snek"] = none := by
    have hparse : Flag.parse flags defaults ["-run", "-max-steps", "a.snek"] =
        .error (.badValue "a.snek" "max-steps" .malformed) :=
      (Flag.parse_truth rfl rfl rfl rfl _).trans (by rw [Flag.parse]; rfl)
    rw [request?, hparse]
  have hrequest : request? ["-run", "-max-steps=2", "a.snek"] =
      some ((⟨[], [], true, false, 2⟩ : CompileOptions), ("a.snek" : Text)) := by
    have hparse : Flag.parse flags defaults ["-run", "-max-steps=2", "a.snek"] =
        .ok (⟨[], [], true, false, 2⟩, ["a.snek"]) :=
      calc Flag.parse flags defaults ["-run", "-max-steps=2", "a.snek"]
        _ = Flag.parse flags ⟨[], [], true, false, 0⟩ ["-max-steps=2", "a.snek"] :=
          Flag.parse_truth rfl rfl rfl rfl _
        _ = Flag.parse flags ⟨[], [], true, false, 2⟩ ["a.snek"] := Flag.parse_value rfl rfl rfl _
        _ = .ok (⟨[], [], true, false, 2⟩, ["a.snek"]) := by rw [Flag.parse]; rfl
    rw [request?, hparse]
    rfl
  have hparse : Expr.parse "(add1 5)" = .ok (.apply .add1 (.num 5)) := rfl
  have hprogram := Expr.compileProgram_of_literal hparse rfl
  refine ⟨((run_all_or_nothing _ _).1 hnone).exit, _, hprogram, ?_⟩
  have hread : (FileSystem.holding "a.snek" "(add1 5)").read "a.snek" = .ok "(add1 5)" := rfl
  obtain ⟨e, listing, he, -, -, hdelivered, -⟩ :=
    (((run_all_or_nothing _ _).2 _ _ hrequest).2 _ hread).2 _ hprogram
  rw [hparse] at he
  cases he
  have hdone := hdelivered _ rfl
  exact ⟨hdone.exit.trans (by decide), hdone.written⟩

theorem isExtension_assembly : Path.IsExtension ".s" := ⟨[.char 's'], rfl, by decide, by decide, by decide⟩

/-- The program of the source goes to the place that the source was read from. -/
structure Replaces (fs : FileSystem) (input source program : Text) : Prop where
  extension : (".s" : Text) <:+ input
  compiled : compileProgram source = .ok program
  written : (fs.write input program).2 = .ok ()

section Input

variable {fs : FileSystem} {input source program : Text} {options : CompileOptions}
  (hout : options.output = [])
include hout

theorem outputOf_of_suffix (h : (".s" : Text) <:+ input) : outputOf options input = input := by
  rw [outputOf, if_pos hout, Path.withExtension_of_suffix isExtension_assembly h]

theorem resolve_outputOf_iff (work : Place) (input : Text) :
    Path.resolve work (outputOf options input) = Path.resolve work input ↔ (".s" : Text) <:+ input := by
  rw [outputOf, if_pos hout]
  exact Path.resolve_withExtension_iff isExtension_assembly work input

theorem read_of_replaces (hread : fs.read input = .ok source) (h : Replaces fs input source program) :
    (compileFile options input fs).files.read input = .ok program := by
  obtain ⟨place, hlocate, -⟩ := FileSystem.read_eq_ok_iff.mp hread
  rw [files_compileFile options hread h.compiled, outputOf_of_suffix hout h.extension]
  have hgrows := fs.grows_write input program
  refine FileSystem.read_eq_ok_iff.mpr ⟨place, hgrows.locate_eq_ok hlocate, ?_⟩
  rw [FileSystem.locate_place hlocate]
  exact FileSystem.content?_write (Prod.ext rfl h.written)

theorem read_of_not_replaces (hread : fs.read input = .ok source)
    (h : ∀ program, ¬ Replaces fs input source program) :
    (compileFile options input fs).files.read input = .ok source := by
  cases hprogram : compileProgram source with
  | error e => rw [(refused_of_compile options hread hprogram).files, hread]
  | ok program =>
    rw [files_compileFile options hread hprogram]
    by_cases hsuffix : (".s" : Text) <:+ input
    · rw [outputOf_of_suffix hout hsuffix]
      cases hwrite : fs.write input program with
      | mk after result =>
        cases result with
        | error e => exact (FileSystem.grows_of_write_error hwrite).read_eq_ok id hread
        | ok => exact absurd ⟨hsuffix, hprogram, by rw [hwrite]⟩ (h program)
    · apply (fs.grows_write (outputOf options input) program).read_eq_ok _ hread
      intro hplace
      exact hsuffix ((resolve_outputOf_iff hout fs.work input).mp hplace.symm)

end Input

/-- With no output named, the output is at the place of the input exactly when the path of the input ends in
`.s`. Then a program that can be written replaces its source. In every other case, whatever the exit, the
input is read again as it was before. -/
theorem run_keeps_input {arguments : List Text} {options : CompileOptions} {input source : Text}
    {fs : FileSystem} (hrequest : request? arguments = some (options, input)) (hout : options.output = [])
    (hread : fs.read input = .ok source) :
    (∃ place, fs.locate input = .ok place ∧
        (Path.resolve fs.work (outputOf options input) = place ↔ (".s" : Text) <:+ input)) ∧
      ((∀ program, ¬ Replaces fs input source program) → (run arguments fs).files.read input = .ok source) ∧
      ∀ program, Replaces fs input source program → (run arguments fs).files.read input = .ok program := by
  rw [run_of_request hrequest]
  refine ⟨?_, read_of_not_replaces hout hread, fun program => read_of_replaces hout hread⟩
  obtain ⟨place, hlocate, -⟩ := FileSystem.read_eq_ok_iff.mp hread
  refine ⟨place, hlocate, ?_⟩
  rw [FileSystem.locate_place hlocate]
  exact resolve_outputOf_iff hout fs.work input

/-- A name that only has the extension on the way keeps its source, while the program is run. -/
theorem run_keeps_input_inner :
    (FileSystem.holding "a.s.snek" "(add1 5)").read "../work/a.s.snek" = .ok "(add1 5)" ∧
      (run ["-run", "../work/a.s.snek"] (.holding "a.s.snek" "(add1 5)")).files.read "../work/a.s.snek" =
        .ok "(add1 5)" := by
  have hrequest : request? ["-run", "../work/a.s.snek"] =
      some ((⟨[], [], true, false, 0⟩ : CompileOptions), ("../work/a.s.snek" : Text)) := by
    have hparse : Flag.parse flags defaults ["-run", "../work/a.s.snek"] =
        .ok (⟨[], [], true, false, 0⟩, ["../work/a.s.snek"]) :=
      (Flag.parse_truth rfl rfl rfl rfl _).trans (by rw [Flag.parse]; rfl)
    rw [request?, hparse]
    rfl
  have hread : (FileSystem.holding "a.s.snek" "(add1 5)").read "../work/a.s.snek" = .ok "(add1 5)" := rfl
  refine ⟨hread, (run_keeps_input hrequest rfl hread).2.1 ?_⟩
  intro program h
  have hsuffix := h.extension
  revert hsuffix
  decide

/-- A source with the extension of an assembly file is replaced by its program. -/
theorem run_replaces_input :
    request? ["prog.s"] = some (defaults, ("prog.s" : Text)) ∧ defaults.output = [] ∧
      outputOf defaults "prog.s" = "prog.s" ∧ (FileSystem.holding "prog.s" "5").read "prog.s" = .ok "5" ∧
      (run ["prog.s"] (.holding "prog.s" "5")).exit = 0 ∧
      (run ["prog.s"] (.holding "prog.s" "5")).files.read "prog.s" =
        .ok "section .text\nglobal our_code_starts_here\nour_code_starts_here:\n  mov rax, 5\n  ret\n" := by
  have hrequest : request? ["prog.s"] = some (defaults, ("prog.s" : Text)) := by
    rw [request?, Flag.parse]
    rfl
  rw [run_of_request hrequest]
  exact ⟨hrequest, rfl, rfl, rfl, by decide +kernel, by decide +kernel⟩

end CompileCommand

end StepLang
