import StepLang.Proofs.Lines
import StepLang.Proofs.Numerals
import StepLang.Proofs.Refinement

/-!
# Listings of instructions

An instruction has a statement that is read back as the instruction. The program around a listing of such
statements assembles to their encodings and a return, with the entry label in front of them. So executing it
from there is executing the instructions one after the other.
-/

namespace StepLang

namespace Register

theorem ofName?_name (r : Register) : ofName? r.name = some r := by
  revert r
  decide

theorem isWord_name (r : Register) : Line.IsWord r.name := by
  revert r
  decide

theorem ofName?_eq_none {g : Glyph} {t : Text} (h : Text.lowerCharToAscii g.toChar ≠ 'r') :
    ofName? (g :: t) = none := by
  have hnames : ∀ r : Register, r.name.head? = some (.char 'r') := by decide
  rw [ofName?, List.find?_eq_none]
  intro r _
  rw [decide_eq_true_eq]
  intro hr
  have hhead := hnames r
  rw [hr] at hhead
  simp [Text.lowerToAscii] at hhead
  exact h hhead

end Register

namespace Numeral

theorem isWord_int (z : Int) : Line.IsWord (int z) := by
  refine ⟨int_ne_nil z, ?_⟩
  have hdigits : ∀ d : Fin 10, (Glyph.char (Nat.digitChar d)).isBlank = false ∧
      Glyph.char (Nat.digitChar d) ≠ .char ',' ∧ Glyph.char (Nat.digitChar d) ≠ Line.colon ∧
      Glyph.char (Nat.digitChar d) ≠ .char ';' := by decide
  intro g hg
  rcases mem_int hg with rfl | ⟨d, rfl⟩
  · decide
  · exact hdigits d

theorem ofName?_int (z : Int) : Register.ofName? (int z) = none := by
  have hdigits : ∀ d : Fin 10, Text.lowerCharToAscii (Nat.digitChar d) ≠ 'r' := by decide
  cases hz : int z with
  | nil => exact absurd hz (int_ne_nil z)
  | cons g t =>
    refine Register.ofName?_eq_none ?_
    rcases mem_int (hz ▸ List.mem_cons_self : g ∈ int z) with rfl | ⟨d, rfl⟩
    · decide
    · exact hdigits d

end Numeral

namespace Operand

def text : Operand → Text
  | reg r => r.name
  | imm v => Numeral.int v.toInt

theorem isWord_text (o : Operand) : Line.IsWord o.text := by
  cases o with
  | reg r => exact r.isWord_name
  | imm v => exact Numeral.isWord_int _

theorem source_text (o : Operand) : Command.source o.text = .ok o := by
  cases o with
  | reg r => simp only [Command.source, text, Register.ofName?_name]
  | imm v =>
    have hread : Literal.marked? 64 (Numeral.int v.toInt) = .ok v.toInt :=
      Literal.marked?_int (by decide) (Int64.le_toInt v) (Int64.toInt_lt v)
    simp only [Command.source, text, Numeral.ofName?_int, hread, Int64.ofInt_toInt]

end Operand

namespace Instruction

def statement : Instruction → Statement
  | ret => ⟨"ret", [], []⟩
  | nop => ⟨"nop", [], []⟩
  | mov dst src => ⟨"mov", dst.name, src.text⟩
  | alu .add dst src => ⟨"add", dst.name, src.text⟩
  | alu .sub dst src => ⟨"sub", dst.name, src.text⟩

theorem operands_binary (op : Text) (dst : Register) (src : Operand) :
    Statement.operands ⟨op, dst.name, src.text⟩ = [dst.name, src.text] := by
  rw [Statement.operands, if_neg dst.isWord_name.1, if_neg src.isWord_text.1]

theorem readable_binary {op : Text} (hop : Line.IsWord op) (dst : Register) (src : Operand) :
    Statement.Readable ⟨op, dst.name, src.text⟩ := by
  rw [Statement.Readable, operands_binary]
  simp [hop, dst.isWord_name, src.isWord_text]

theorem readable_statement (i : Instruction) : i.statement.Readable := by
  cases i with
  | ret => unfold Statement.Readable; decide
  | nop => unfold Statement.Readable; decide
  | mov dst src => exact readable_binary (by decide) dst src
  | alu op dst src => cases op <;> exact readable_binary (by decide) dst src

theorem binary_text (m : Text) {dst : Register} {src : Operand} {form : Register → Operand → Instruction}
    {bytes : List UInt8} (h : (form dst src).encode? = some bytes) :
    Command.binary ⟨m, [dst.name, src.text]⟩ form = .ok (.code (form dst src) bytes) := by
  simp only [Command.binary, Register.ofName?_name, Operand.source_text, h]

theorem content_statement {i : Instruction} {bytes : List UInt8} (h : i.encode? = some bytes) :
    Command.content ⟨i.statement.op.upper, i.statement.operands⟩ = .ok (.code i bytes) := by
  cases i with
  | ret => cases h; rfl
  | nop => cases h; rfl
  | mov dst src =>
    rw [statement, operands_binary]
    exact binary_text "MOV" h
  | alu op dst src =>
    cases op with
    | add =>
      rw [statement, operands_binary]
      exact binary_text "ADD" h
    | sub =>
      rw [statement, operands_binary]
      exact binary_text "SUB" h

def line (i : Instruction) : Text := Listing.indented i.statement.text

theorem ofText?_line {i : Instruction} {bytes : List UInt8} (h : i.encode? = some bytes) (number : Nat) :
    SourceLine.ofText? number i.line = some ⟨number, [], .code i bytes⟩ :=
  SourceLine.ofText?_of_parse (Statement.parse_indented i.readable_statement) (content_statement h)

def numbered (number : Nat) : List Instruction → List (Nat × Instruction)
  | [] => []
  | i :: rest => (number, i) :: numbered (number + 1) rest

theorem take_numbered (number n : Nat) (is : List Instruction) :
    (numbered number is).take n = numbered number (is.take n) := by
  induction is generalizing number n with
  | nil => simp [numbered]
  | cons i is ih =>
    cases n with
    | zero => rfl
    | succ n => rw [numbered, List.take_succ_cons, List.take_succ_cons, ih, numbered]

theorem mem_numbered {number : Nat} {is : List Instruction} {p : Nat × Instruction}
    (h : p ∈ numbered number is) :
    p.2 ∈ is := by
  induction is generalizing number with
  | nil => simp [numbered] at h
  | cons i is ih =>
    rcases List.mem_cons.mp h with rfl | h
    · exact List.mem_cons_self
    · exact List.mem_cons_of_mem i (ih h)

def code (is : List Instruction) : List UInt8 := is.flatMap fun i => i.encode?.getD []

theorem code_numbered (number : Nat) (is : List Instruction) :
    Interpretation.code (numbered number is) = code is := by
  induction is generalizing number with
  | nil => rfl
  | cons i is ih =>
    rw [numbered, Interpretation.code, List.flatMap_cons, code, List.flatMap_cons]
    exact congrArg _ (ih (number + 1))

end Instruction

namespace SourceLine

theorem ofLines?_append {number : Nat} {ts us : List Text} {ls ms : List SourceLine}
    (hts : ofLines? number ts = some ls) (hus : ofLines? (number + ts.length) us = some ms) :
    ofLines? number (ts ++ us) = some (ls ++ ms) := by
  induction ts generalizing number ls with
  | nil =>
    cases hts
    exact hus
  | cons t ts ih =>
    obtain ⟨l, rest, hl, hrest, rfl⟩ := ofLines?_cons.mp hts
    rw [List.length_cons, Nat.add_comm ts.length 1, ← Nat.add_assoc] at hus
    exact ofLines?_cons.mpr ⟨l, rest ++ ms, hl, ih hrest hus, rfl⟩

def ofInstruction (p : Nat × Instruction) : SourceLine := ⟨p.1, [], .code p.2 (p.2.encode?.getD [])⟩

theorem ofLines?_instructions {is : List Instruction} (h : ∀ i ∈ is, ∃ bytes, i.encode? = some bytes)
    (number : Nat) :
    ofLines? number (is.map Instruction.line) =
      some ((Instruction.numbered number is).map ofInstruction) := by
  induction is generalizing number with
  | nil => rfl
  | cons i is ih =>
    obtain ⟨⟨bytes, hbytes⟩, his⟩ := List.forall_mem_cons.mp h
    refine ofLines?_cons.mpr ⟨_, _, Instruction.ofText?_line hbytes number, ih his (number + 1), ?_⟩
    rw [Instruction.numbered, List.map_cons, ofInstruction, hbytes, Option.getD_some]

theorem instructions_append (ls ms : List SourceLine) :
    (program (ls ++ ms)).instructions = (program ls).instructions ++ (program ms).instructions := by
  simp [program, Program.instructions]

theorem instructions_ofInstruction (ps : List (Nat × Instruction)) :
    (program (ps.map ofInstruction)).instructions = ps := by
  induction ps with
  | nil => rfl
  | cons p ps ih =>
    rw [List.map_cons, instructions_cons, ih]
    rfl

theorem labelled_ofInstruction (ps : List (Nat × Instruction)) : labelled (ps.map ofInstruction) = [] := by
  rw [labelled, List.flatMap_map, List.flatMap_eq_nil_iff]
  exact fun _ _ => rfl

theorem exported_ofInstruction (ps : List (Nat × Instruction)) : exported (ps.map ofInstruction) = [] := by
  rw [exported, List.flatMap_map, List.flatMap_eq_nil_iff]
  exact fun _ _ => rfl

end SourceLine

namespace Listing

def headerLines : List SourceLine :=
  [⟨1, [], .textSection⟩, ⟨2, [], .exports [entryLabel]⟩, ⟨3, [entryLabel], .nothing⟩]

theorem ofLines?_header : SourceLine.ofLines? 1 header = some headerLines := by
  have hsection : Line.parse "section .text" = .ok ⟨[], some ⟨"SECTION", [".text"]⟩⟩ :=
    Line.parse_of_notMem (by decide) (by decide)
  have hglobal : Line.parse ("global " ++ entryLabel) = .ok ⟨[], some ⟨"GLOBAL", [entryLabel]⟩⟩ :=
    Line.parse_of_notMem (by decide) (by decide)
  have hentry : Line.parse (entryLabel ++ ":") = .ok ⟨[entryLabel], none⟩ :=
    Line.parse_label entryLabel [] (by decide) (by decide) (by decide) (by decide)
  exact SourceLine.ofLines?_cons.mpr ⟨_, _, SourceLine.ofText?_of_parse hsection rfl,
    SourceLine.ofLines?_cons.mpr ⟨_, _, SourceLine.ofText?_of_parse hglobal rfl,
      SourceLine.ofLines?_cons.mpr ⟨_, _, SourceLine.ofText?_of_parse hentry rfl, rfl, rfl⟩, rfl⟩, rfl⟩

/-- The lines of the program around instructions: the header, the instructions, a return, and the empty line
behind the last line break. -/
def programLines (is : List Instruction) : List SourceLine :=
  headerLines ++
    ((Instruction.numbered 4 (is ++ [.ret])).map SourceLine.ofInstruction ++ [⟨is.length + 5, [], .nothing⟩])

theorem lines_program (is : List Instruction) :
    (program (is.map Instruction.statement)).lines =
      header ++ (is ++ [Instruction.ret]).map Instruction.line ++ [[]] := by
  have hprogram : program (is.map Instruction.statement) =
      Text.unlines (header ++ (is ++ [Instruction.ret]).map Instruction.line) := by
    rw [program, Listing.lines, List.map_map, List.map_map, List.map_append, List.append_assoc]
    rfl
  have hheader : ∀ l ∈ header, Text.newline ∉ l := by decide
  rw [hprogram]
  refine Text.lines_unlines (List.forall_mem_append.mpr ⟨hheader, ?_⟩)
  intro l hl
  obtain ⟨i, -, rfl⟩ := List.mem_map.mp hl
  exact Statement.newline_notMem_indented i.readable_statement

theorem ofLines?_program {is : List Instruction} (h : ∀ i ∈ is, ∃ bytes, i.encode? = some bytes) :
    SourceLine.ofLines? 1 (program (is.map Instruction.statement)).lines = some (programLines is) := by
  have hcode : ∀ i ∈ is ++ [.ret], ∃ bytes, i.encode? = some bytes :=
    List.forall_mem_append.mpr ⟨h, by simp [Instruction.encode?]⟩
  have hempty : Line.parse [] = .ok ⟨[], none⟩ := Line.parse_of_notMem (by decide) (by decide)
  rw [lines_program, List.append_assoc]
  refine SourceLine.ofLines?_append ofLines?_header ?_
  refine SourceLine.ofLines?_append (SourceLine.ofLines?_instructions hcode 4) ?_
  have hnumber :
      1 + header.length + ((is ++ [Instruction.ret]).map Instruction.line).length = is.length + 5 := by
    simp only [header, List.length_cons, List.length_nil, List.length_map, List.length_append]
    omega
  rw [hnumber]
  exact SourceLine.ofLines?_cons.mpr ⟨_, _, SourceLine.ofText?_of_parse hempty rfl, rfl, rfl⟩

theorem labelled_program (is : List Instruction) : SourceLine.labelled (programLines is) = [entryLabel] := by
  have hcode := SourceLine.labelled_ofInstruction (Instruction.numbered 4 (is ++ [.ret]))
  simp only [SourceLine.labelled] at hcode
  simp only [programLines, SourceLine.labelled, List.flatMap_append, hcode]
  rfl

theorem exported_program (is : List Instruction) : SourceLine.exported (programLines is) = [entryLabel] := by
  have hcode := SourceLine.exported_ofInstruction (Instruction.numbered 4 (is ++ [.ret]))
  simp only [SourceLine.exported] at hcode
  simp only [programLines, SourceLine.exported, List.flatMap_append, hcode]
  rfl

theorem linked_program (is : List Instruction) : SourceLine.Linked (programLines is) := by
  rw [SourceLine.Linked, labelled_program, exported_program]
  simp

theorem assemble_program {is : List Instruction} (h : ∀ i ∈ is, ∃ bytes, i.encode? = some bytes) :
    assemble (program (is.map Instruction.statement)) = .ok (SourceLine.draft (programLines is)).toObject :=
  assemble_eq_ok_iff.mpr ⟨programLines is, ofLines?_program h, linked_program is, rfl⟩

theorem entry_program (is : List Instruction) :
    (SourceLine.draft (programLines is)).toObject.entry? entryLabel = some 0 := by
  have hlookup : (SourceLine.draft (programLines is)).toObject.symbols.lookup entryLabel =
      SourceLine.offset? entryLabel 0 (programLines is) :=
      SourceLine.lookup_draft (linked_program is).1 entryLabel
  rw [Object.entry?, if_neg (by decide), hlookup]
  rfl

theorem instructions_program (is : List Instruction) :
    (SourceLine.program (programLines is)).instructions = Instruction.numbered 4 (is ++ [.ret]) := by
  rw [programLines, SourceLine.instructions_append, SourceLine.instructions_append,
    SourceLine.instructions_ofInstruction]
  exact List.append_nil _

theorem code_program {is : List Instruction} (h : ∀ i ∈ is, ∃ bytes, i.encode? = some bytes) :
    (SourceLine.draft (programLines is)).toObject.code =
      Interpretation.code (Instruction.numbered 4 (is ++ [.ret])) := by
  rw [code_toObject, ← SourceLine.code_instructions (SourceLine.ofLines?_encoded (ofLines?_program h)),
    instructions_program]

end Listing

namespace Interpretation

theorem limit_of_spent {budget : Int64} {done : Nat} (hdone : Within budget done)
    (hspent : spent budget done = true) (regs : Registers) (is : List (Nat × Instruction)) :
    (run budget done regs is).outcome = .limit budget ∧
      done + (run budget done regs is).visited.length = budget.toInt := by
  obtain ⟨hbudget, hle⟩ := spent_iff.mp hspent
  have hge := hdone hbudget
  rw [run_spent hspent]
  exact ⟨rfl, by simp only [List.length_nil]; omega⟩

theorem run_straight {is : List Instruction} (h : ∀ i ∈ is, i ≠ .ret) {budget : Int64} {done : Nat}
    (hdone : Within budget done) (number : Nat) (regs : Registers) {r : Interpretation}
    (hr : r = run budget done regs (Instruction.numbered number (is ++ [.ret]))) :
    if 0 < budget.toInt ∧ budget.toInt < done + is.length + 1 then
      r.outcome = .limit budget ∧ done + r.visited.length = budget.toInt
    else r.outcome = .returned (is.foldl Registers.after regs Register.rax) := by
  induction is generalizing done number regs r with
  | nil =>
    cases hspent : spent budget done with
    | true =>
      have hbudget := spent_iff.mp hspent
      rw [if_pos ⟨hbudget.1, by simp only [List.length_nil]; omega⟩, hr]
      exact limit_of_spent hdone hspent _ _
    | false =>
      have hbudget := mt spent_iff.mpr (Bool.eq_false_iff.mp hspent)
      rw [if_neg (by simp only [List.length_nil]; omega), hr, List.nil_append, Instruction.numbered, run,
        if_neg (Bool.eq_false_iff.mp hspent), if_pos rfl]
      rfl
  | cons i is ih =>
    obtain ⟨hi, his⟩ := List.forall_mem_cons.mp h
    cases hspent : spent budget done with
    | true =>
      have hbudget := spent_iff.mp hspent
      rw [if_pos ⟨hbudget.1, by simp only [List.length_cons]; omega⟩, hr]
      exact limit_of_spent hdone hspent _ _
    | false =>
      have hlater := ih his (.succ hspent) (number + 1) (regs.after i) rfl
      have hlength : ((done + 1 : Nat) : Int) + is.length + 1 = done + (i :: is).length + 1 := by
        simp only [List.length_cons]
        omega
      rw [hlength] at hlater
      rw [hr, List.cons_append, Instruction.numbered, run, if_neg (Bool.eq_false_iff.mp hspent), if_neg hi]
      split at hlater
      · rename_i hlimit
        rw [if_pos hlimit]
        exact ⟨hlater.1, by simp only [List.length_cons]; omega⟩
      · rename_i hlimit
        rw [if_neg hlimit]
        exact hlater

end Interpretation

theorem Listing.execute_program {is : List Instruction} (henc : ∀ i ∈ is, ∃ bytes, i.encode? = some bytes)
    (hret : ∀ i ∈ is, i ≠ .ret) (budget : Int64) :
    (execute (program (is.map Instruction.statement)) entryLabel budget).result =
      if 0 < budget.toInt ∧ budget.toInt < is.length + 1 then
        .error (.run (.limit budget (Instruction.code (is.take budget.toInt.toNat)).length))
      else .ok (is.foldl Registers.after .zero Register.rax) := by
  have hcode : ∀ p ∈ Instruction.numbered 4 (is ++ [.ret]), ∃ bytes, p.2.encode? = some bytes := by
    intro p hp
    rcases List.mem_append.mp (Instruction.mem_numbered hp) with hi | hi
    · exact henc _ hi
    · rw [List.mem_singleton.mp hi]
      exact ⟨_, rfl⟩
  have hentry :
      (SourceLine.draft (programLines is)).toObject.entry? entryLabel = some ([] : List UInt8).length :=
    entry_program is
  obtain ⟨ending, hexecute, hreal, -⟩ :=
    execute_simulates (assemble_program henc) hentry (code_program henc) hcode
    (by cases is <;> simp [Instruction.numbered]) budget
  have hrun := Interpretation.run_straight hret (Interpretation.within_zero budget) 4 .zero rfl
  simp only [hexecute]
  unfold Machine.Ending.Realises at hreal
  split at hrun
  · rename_i hlimit
    simp only [hrun.1] at hreal
    have hvisited :
        (Interpretation.run budget 0 .zero (Instruction.numbered 4 (is ++ [.ret]))).visited.length =
        budget.toInt.toNat := by
      omega
    have hwithin : budget.toInt.toNat ≤ is.length := by omega
    rw [hvisited, Instruction.take_numbered, Instruction.code_numbered, List.take_append_of_le_length hwithin,
      List.length_nil, Nat.zero_add] at hreal
    rw [if_pos (by simpa using hlimit), hreal]
  · rename_i hlimit
    simp only [hrun] at hreal
    rw [if_neg (by simpa using hlimit), hreal.1]
    simp only [hreal.2]

end StepLang
