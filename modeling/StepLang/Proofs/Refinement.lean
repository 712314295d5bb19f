import StepLang.Proofs.Consistency
import StepLang.Proofs.Interpretation

/-!
# Executing refines interpreting

The instructions of the lines from an entry on are those whose bytes stand in the code from its offset on. So
executing a text that assembles ends as interpreting its lines does, for every entry and every budget.
-/

namespace StepLang

namespace SourceLine

def program (ls : List SourceLine) : Program := ls.map fun l => ⟨l.number, l.labels, l.content.instruction?⟩

/-- Reading the lines for their bytes and reading them for what is to be carried out come to the same
program. -/
theorem ReadFrom.program {source : Text} {ls : List SourceLine} (h : ReadFrom source ls) :
    Program.ReadFrom source (program ls) := by
  obtain ⟨hreads, hnumbers⟩ := h
  constructor
  · apply List.forall₂_map_right_iff.mpr
    apply hreads.imp
    intro t l hl
    obtain ⟨line, hline, hlabels, hmeans⟩ := hl
    exact ⟨line, hline, hlabels, hmeans.orders⟩
  · rw [SourceLine.program, List.map_map, List.length_map]
    exact hnumbers

theorem instructions_cons (l : SourceLine) (ls : List SourceLine) :
    (program (l :: ls)).instructions =
      match l.content with
      | .code i _ => (l.number, i) :: (program ls).instructions
      | _ => (program ls).instructions := by
  cases hl : l.content <;> simp [program, Program.instructions, hl, Content.instruction?]

theorem instructions_encode {ls : List SourceLine} (h : Encoded ls) :
    ∀ p ∈ (program ls).instructions, ∃ bytes, p.2.encode? = some bytes := by
  induction ls with
  | nil => simp [program, Program.instructions]
  | cons l ls ih =>
    obtain ⟨hl, hls⟩ := List.forall_mem_cons.mp h
    rw [instructions_cons]
    split
    · rename_i i bs hcontent
      exact List.forall_mem_cons.mpr ⟨⟨bs, hl i bs hcontent⟩, ih hls⟩
    · exact ih hls

theorem code_instructions {ls : List SourceLine} (h : Encoded ls) :
    Interpretation.code (program ls).instructions = code ls := by
  induction ls with
  | nil => rfl
  | cons l ls ih =>
    obtain ⟨hl, hls⟩ := List.forall_mem_cons.mp h
    have ih := ih hls
    rw [instructions_cons]
    simp only [code, List.flatMap_cons] at ih ⊢
    rw [← ih]
    cases hcontent : l.content with
    | code i bs => simp [Interpretation.code, hl i bs hcontent, Content.bytes]
    | nothing => rfl
    | textSection => rfl
    | exports names => rfl

theorem starts_instructions {ls : List SourceLine} (h : Encoded ls) (address : Nat) :
    Interpretation.starts address (program ls).instructions = mapFrom address ls := by
  induction ls generalizing address with
  | nil => rfl
  | cons l ls ih =>
    obtain ⟨hl, hls⟩ := List.forall_mem_cons.mp h
    rw [instructions_cons, mapFrom, ← ih hls]
    cases hcontent : l.content with
    | code i bs => simp [Interpretation.starts, hl i bs hcontent, size, hcontent, Content.bytes]
    | nothing => simp [size, hcontent, Content.bytes]
    | textSection => simp [size, hcontent, Content.bytes]
    | exports names => simp [size, hcontent, Content.bytes]

theorem dropWhile_program (label : Text) (l : SourceLine) (ls : List SourceLine) :
    (program (l :: ls)).dropWhile (fun line => !line.labels.contains label) =
      if label ∈ l.labels then program (l :: ls)
      else (program ls).dropWhile fun line => !line.labels.contains label := by
  by_cases h : label ∈ l.labels
  · simp [program, h]
  · simp [program, h]

theorem offset?_cases (label : Text) (address : Nat) (ls : List SourceLine) :
    (offset? label address ls = none ∧ (program ls).dropWhile (fun l => !l.labels.contains label) = []) ∨
      ∃ before l rest, ls = before ++ l :: rest ∧
      offset? label address ls = some (address + (code before).length) ∧
        (program ls).dropWhile (fun l => !l.labels.contains label) = program (l :: rest) := by
  induction ls generalizing address with
  | nil => exact .inl ⟨rfl, rfl⟩
  | cons l ls ih =>
    rw [offset?, dropWhile_program]
    by_cases h : label ∈ l.labels
    · exact .inr ⟨[], l, ls, rfl, by simp [h, code], by simp [h]⟩
    · rw [if_neg h, if_neg h]
      rcases ih (address + l.size) with hnone | ⟨before, first, rest, rfl, hoffset, hdrop⟩
      · exact .inl hnone
      · refine .inr ⟨l :: before, first, rest, rfl, ?_, hdrop⟩
        rw [hoffset]
        simp [code, size, Nat.add_assoc]

theorem entry_cases {ls : List SourceLine} (h : (labelled ls).Nodup) (label : Text) :
    ((draft ls).toObject.entry? label = none ∧ (program ls).from? label = none) ∨
      ∃ before rest, ls = before ++ rest ∧ (draft ls).toObject.entry? label = some (code before).length ∧
        (program ls).from? label = some (program rest) := by
  have hsymbols : ∀ name, (draft ls).toObject.symbols.lookup name = offset? name 0 ls := lookup_draft h
  simp only [Object.entry?, Program.from?, hsymbols]
  by_cases hl : label = []
  · exact .inr ⟨[], ls, rfl, by simp [hl, code], by simp [hl]⟩
  · simp only [if_neg hl]
    rcases offset?_cases label 0 ls with ⟨hoffset, hdrop⟩ | ⟨before, l, rest, rfl, hoffset, hdrop⟩
    · exact .inl ⟨hoffset, by simp only [hdrop]⟩
    · refine .inr ⟨before, l :: rest, rfl, by simpa using hoffset, ?_⟩
      simp only [hdrop]
      rfl

end SourceLine

theorem Machine.Ending.Realises.outcome {e : Ending} {address : Nat} {is : List (Nat × Instruction)}
    {r : Interpretation} (h : e.Realises address is r) :
    RunOutcome.ofResult (match e.result with
      | .error e => .error (.run e)
      | .ok () => .ok e.machine.rax) = some r.outcome := by
  unfold Realises at h
  cases hr : r.outcome with
  | returned rax =>
    simp only [hr] at h
    rw [h.1, ← h.2]
    rfl
  | limit budget =>
    simp only [hr] at h
    rw [h]
    rfl
  | ranOff =>
    simp only [hr] at h
    obtain ⟨n, hn⟩ := h
    rw [hn]
    simp [RunOutcome.ofResult]
  | undefinedLabel label => simp only [hr] at h
  | nothingToRun => simp only [hr] at h

namespace SourceLine

/-- Where the lines of a text link, executing it ends as interpreting them does, and the instructions
executed start, in order, where the source map has the lines that are carried out. -/
theorem execute_interpret {source : Text} {ls : List SourceLine} (hread : ReadFrom source ls)
    (hlabels : (labelled ls).Nodup) (hobject : assemble source = .ok (draft ls).toObject) (label : Text)
    (budget : Int64) :
    RunOutcome.ofResult (execute source label budget).result =
    some ((program ls).interpret label budget).outcome ∧
      List.Forall₂ (Machine.StartsAt (draft ls).toObject.sourceMap) (execute source label budget).log
        ((program ls).interpret label budget).visited := by
  rcases entry_cases hlabels label with ⟨hentry, hfrom⟩ | ⟨before, rest, rfl, hentry, hfrom⟩
  · simp only [execute, hobject, hentry, Program.interpret, hfrom]
    exact ⟨rfl, .nil⟩
  have hcode := code_toObject (before ++ rest)
  rw [code_append] at hcode
  have hall := ofLines?_encoded (ofLines?_eq_some_iff_readFrom.mpr hread)
  have hencoded : Encoded rest := fun l hl => hall l (List.mem_append_right before hl)
  rw [← code_instructions hencoded] at hcode
  cases his : (program rest).instructions with
  | nil =>
    have hload : Machine.initial.load (draft (before ++ rest)).toObject.code (code before).length =
        .error ⟨(code before).length, (code before).length⟩ := by
      rw [hcode, his]
      simp [Machine.load, Interpretation.code]
    simp only [execute, hobject, hentry, hload, Program.interpret, hfrom, his]
    exact ⟨rfl, .nil⟩
  | cons first others =>
    obtain ⟨ending, hexecute, hreal, hstarts⟩ := execute_simulates hobject hentry hcode
      (instructions_encode hencoded) (by simp [his]) budget
    have hinterpret : (program (before ++ rest)).interpret label budget =
        .run budget 0 .zero (program rest).instructions := by
      simp only [Program.interpret, hfrom, his]
    rw [hexecute, hinterpret]
    refine ⟨hreal.outcome, hstarts.imp ?_⟩
    rintro x number ⟨offset, hoffset, hmem⟩
    rw [starts_instructions hencoded] at hmem
    refine ⟨offset, hoffset, ?_⟩
    rw [sourceMap_toObject, mapFrom_append, Nat.zero_add]
    exact List.mem_append_right _ hmem

end SourceLine

/-- The lines of a text that assembles are a program, read without its bytes. Executing the text ends as
interpreting this program does, and the instructions executed start, in order, where the source map has the
lines that are carried out. -/
theorem execute_refines_interpret {source : Text} {object : Object} (h : assemble source = .ok object) :
    (∃ program, Program.ReadFrom source program) ∧
    ∀ program, Program.ReadFrom source program → ∀ (label : Text) (budget : Int64),
      RunOutcome.ofResult (execute source label budget).result =
        some (program.interpret label budget).outcome ∧
      List.Forall₂ (Machine.StartsAt object.sourceMap) (execute source label budget).log
        (program.interpret label budget).visited := by
  obtain ⟨ls, hls, hlinked, rfl⟩ := assemble_eq_ok_iff.mp h
  have hread := SourceLine.ofLines?_eq_some_iff_readFrom.mp hls
  refine ⟨⟨_, hread.program⟩, ?_⟩
  intro program hprogram label budget
  rw [hprogram.unique hread.program]
  exact SourceLine.execute_interpret hread hlinked.1 h label budget

/-- A run from a label that returns, and the same run cut short behind the last instruction that its budget
allows. The text before the label is not carried out. -/
theorem execute_refines_interpret_returned :
    ∃ object, assemble "  ret\nf: mov rcx, -2\n sub rax, rcx\nret" = .ok object ∧
      RunOutcome.ofResult (execute "  ret\nf: mov rcx, -2\n sub rax, rcx\nret" "f" 0).result =
        some (.returned 2) ∧
      List.Forall₂ (Machine.StartsAt object.sourceMap)
        (execute "  ret\nf: mov rcx, -2\n sub rax, rcx\nret" "f" 0).log [2, 3, 4] ∧
      RunOutcome.ofResult (execute "  ret\nf: mov rcx, -2\n sub rax, rcx\nret" "f" 2).result =
        some (.limit 2) := by
  have hspaced : Line.parse "  ret" = .ok ⟨[], some ⟨"RET", []⟩⟩ :=
    Line.parse_of_notMem (by decide) (by decide)
  have hmov : Line.parse "f: mov rcx, -2" = .ok ⟨["f"], some ⟨"MOV", ["rcx", "-2"]⟩⟩ :=
    Line.parse_label "f" " mov rcx, -2" (by decide) (by decide) (by decide) (by decide)
  have hsub : Line.parse " sub rax, rcx" = .ok ⟨[], some ⟨"SUB", ["rax", "rcx"]⟩⟩ :=
    Line.parse_of_notMem (by decide) (by decide)
  have hret : Line.parse "ret" = .ok ⟨[], some ⟨"RET", []⟩⟩ := Line.parse_of_notMem (by decide) (by decide)
  have hlines : SourceLine.ofLines? 1 (Text.lines "  ret\nf: mov rcx, -2\n sub rax, rcx\nret") =
      some [⟨1, [], .code .ret [0xC3]⟩,
        ⟨2, ["f"], .code (.mov 1 (.imm (-2))) [0x48, 0xC7, 0xC1, 0xFE, 0xFF, 0xFF, 0xFF]⟩,
        ⟨3, [], .code (.alu .sub 0 (.reg 1)) [0x48, 0x29, 0xC8]⟩, ⟨4, [], .code .ret [0xC3]⟩] :=
    SourceLine.ofLines?_cons.mpr ⟨_, _, SourceLine.ofText?_of_parse hspaced rfl,
      SourceLine.ofLines?_cons.mpr ⟨_, _, SourceLine.ofText?_of_parse hmov rfl,
        SourceLine.ofLines?_cons.mpr ⟨_, _, SourceLine.ofText?_of_parse hsub rfl,
          SourceLine.ofLines?_cons.mpr ⟨_, _, SourceLine.ofText?_of_parse hret rfl, rfl, rfl⟩,
          rfl⟩, rfl⟩, rfl⟩
  have hobject : assemble "  ret\nf: mov rcx, -2\n sub rax, rcx\nret" = .ok _ :=
    assemble_eq_ok_iff.mpr ⟨_, hlines, ⟨by decide, by decide⟩, rfl⟩
  have hprogram := (SourceLine.ofLines?_eq_some_iff_readFrom.mp hlines).program
  obtain ⟨houtcome, hlog⟩ := (execute_refines_interpret hobject).2 _ hprogram "f" 0
  obtain ⟨hlimit, -⟩ := (execute_refines_interpret hobject).2 _ hprogram "f" 2
  exact ⟨_, hobject, houtcome, hlog, hlimit⟩

end StepLang
