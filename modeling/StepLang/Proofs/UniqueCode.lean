import StepLang.Proofs.Template

/-!
# Code tells its instructions

No encoding is the beginning of another one, so there is only one way to cut code into encodings. Two texts
with the same code have the same instructions in the same order, each at the same offset; their labels,
directives, comments and the spelling of their operands may differ.
-/

namespace StepLang

namespace Instruction

theorem encode_append_inj {i j : Instruction} {bytes chunk rest back : List UInt8}
    (hi : i.encode? = some bytes)
    (hj : j.encode? = some chunk) (h : bytes ++ rest = chunk ++ back) : i = j ∧ rest = back := by
  have hdecode := decode_encode hi rest
  rw [h, decode_encode hj back, Decoded.instruction.injEq] at hdecode
  obtain ⟨rfl, -⟩ := hdecode
  rw [hj, Option.some.injEq] at hi
  subst hi
  exact ⟨rfl, List.append_cancel_left h⟩

theorem code_cons {i : Instruction} {bytes : List UInt8} (h : i.encode? = some bytes)
    (is : List Instruction) :
    code (i :: is) = bytes ++ code is := by
  rw [code, List.flatMap_cons, h, Option.getD_some]
  rfl

theorem code_cons_ne_nil {i : Instruction} {bytes : List UInt8} (h : i.encode? = some bytes)
    (is : List Instruction) :
    code (i :: is) ≠ [] := by
  rw [code_cons h]
  exact List.append_ne_nil_of_left_ne_nil (List.length_pos_iff.mp (length_encode h).1) _

theorem code_injective {is js : List Instruction} (his : ∀ i ∈ is, ∃ bytes, i.encode? = some bytes)
    (hjs : ∀ j ∈ js, ∃ bytes, j.encode? = some bytes) (h : code is = code js) : is = js := by
  induction is generalizing js with
  | nil =>
    cases js with
    | nil => rfl
    | cons j js =>
      obtain ⟨⟨chunk, hchunk⟩, -⟩ := List.forall_mem_cons.mp hjs
      exact absurd h.symm (code_cons_ne_nil hchunk js)
  | cons i is ih =>
    obtain ⟨⟨bytes, hbytes⟩, hothers⟩ := List.forall_mem_cons.mp his
    cases js with
    | nil => exact absurd h (code_cons_ne_nil hbytes is)
    | cons j js =>
      obtain ⟨⟨chunk, hchunk⟩, hlater⟩ := List.forall_mem_cons.mp hjs
      rw [code_cons hbytes, code_cons hchunk] at h
      obtain ⟨rfl, hrest⟩ := encode_append_inj hbytes hchunk h
      rw [ih hothers hlater hrest]

/-- The addresses of instructions whose bytes start at `address`. -/
def offsets (address : Nat) : List Instruction → List Nat
  | [] => []
  | i :: is => address :: offsets (address + (i.encode?.getD []).length) is

end Instruction

namespace Interpretation

theorem code_eq (is : List (Nat × Instruction)) : code is = Instruction.code (is.map Prod.snd) := by
  rw [code, Instruction.code, List.flatMap_map]

theorem offsets_starts (address : Nat) (is : List (Nat × Instruction)) :
    (starts address is).map Prod.fst = Instruction.offsets address (is.map Prod.snd) := by
  induction is generalizing address with
  | nil => rfl
  | cons p is ih => rw [starts, List.map_cons, ih, List.map_cons, Instruction.offsets]

end Interpretation

theorem instructions_of_assemble {source : Text} {object : Object} (h : assemble source = .ok object) :
    ∃ program, Program.ReadFrom source program ∧
      (∀ i ∈ program.instructions.map Prod.snd, ∃ bytes, i.encode? = some bytes) ∧
      object.code = Instruction.code (program.instructions.map Prod.snd) ∧
      object.sourceMap.map Prod.fst = Instruction.offsets 0 (program.instructions.map Prod.snd) := by
  obtain ⟨ls, hls, -, rfl⟩ := assemble_eq_ok_iff.mp h
  have hencoded := SourceLine.ofLines?_encoded hls
  refine ⟨SourceLine.program ls, (SourceLine.ofLines?_eq_some_iff_readFrom.mp hls).program, ?_, ?_, ?_⟩
  · intro i hi
    obtain ⟨p, hp, rfl⟩ := List.mem_map.mp hi
    exact SourceLine.instructions_encode hencoded p hp
  · rw [code_toObject, ← SourceLine.code_instructions hencoded, Interpretation.code_eq]
  · rw [sourceMap_toObject, ← SourceLine.starts_instructions hencoded, Interpretation.offsets_starts]

/-- Texts that assemble are read as programs, without their bytes. They have the same code exactly when
their programs have the same instructions in the same order, and then their instructions start at the same
offsets. -/
theorem assemble_code_unique {source other : Text} {object result : Object} (h : assemble source = .ok object)
    (hother : assemble other = .ok result) :
    (∃ program, Program.ReadFrom source program) ∧ (∃ rival, Program.ReadFrom other rival) ∧
    ∀ program rival, Program.ReadFrom source program → Program.ReadFrom other rival →
      (object.code = result.code ↔ program.instructions.map Prod.snd = rival.instructions.map Prod.snd) ∧
      (object.code = result.code → object.sourceMap.map Prod.fst = result.sourceMap.map Prod.fst) := by
  obtain ⟨program, hprogram, hencode, hcode, hoffsets⟩ := instructions_of_assemble h
  obtain ⟨rival, hrival, hencode', hcode', hoffsets'⟩ := instructions_of_assemble hother
  have hiff : object.code = result.code ↔
      program.instructions.map Prod.snd = rival.instructions.map Prod.snd := by
    rw [hcode, hcode']
    constructor
    · intro heq
      exact Instruction.code_injective hencode hencode' heq
    · intro heq
      rw [heq]
  refine ⟨⟨program, hprogram⟩, ⟨rival, hrival⟩, ?_⟩
  intro p q hp hq
  rw [hp.unique hprogram, hq.unique hrival]
  refine ⟨hiff, ?_⟩
  intro heq
  rw [hoffsets, hoffsets', hiff.mp heq]

/-- The same two instructions on other lines and in another spelling have the same code. An immediate that
is smaller by one makes another program, and its code is another one. -/
theorem assemble_code_unique_spelled :
    ∃ object result rest, assemble "f: mov r9, 0x8000_0000 ; long\nret" = .ok object ∧
      assemble "global g\nMOV R9 2147483648\ng: RET" = .ok result ∧
      assemble "mov r9, 0x7FFF_FFFF\nret" = .ok rest ∧
      object.code = result.code ∧ object.sourceMap ≠ result.sourceMap ∧
      object.sourceMap.map Prod.fst = result.sourceMap.map Prod.fst ∧
      (∀ program rival, Program.ReadFrom "f: mov r9, 0x8000_0000 ; long\nret" program →
        Program.ReadFrom "global g\nMOV R9 2147483648\ng: RET" rival →
        program.instructions.map Prod.snd = rival.instructions.map Prod.snd) ∧
      (∃ program rival, Program.ReadFrom "f: mov r9, 0x8000_0000 ; long\nret" program ∧
        Program.ReadFrom "mov r9, 0x7FFF_FFFF\nret" rival ∧
        program.instructions.map Prod.snd = [.mov 9 (.imm 0x80000000), .ret] ∧
        rival.instructions.map Prod.snd = [.mov 9 (.imm 0x7FFFFFFF), .ret]) ∧
      object.code ≠ rest.code := by
  have hmov : Line.parse "f: mov r9, 0x8000_0000 ; long" =
      .ok ⟨["f"], some ⟨"MOV", ["r9", "0x8000_0000"]⟩⟩ := by
    have hline : Text.trim (Line.beforeComment "f: mov r9, 0x8000_0000 ; long") =
        "f" ++ Line.colon :: " mov r9, 0x8000_0000" := rfl
    rw [Line.parse, hline, Line.takeLabels_label (by decide) (by decide),
      Line.takeLabels_of_notMem (by decide)]
    rfl
  have hret : Line.parse "ret" = .ok ⟨[], some ⟨"RET", []⟩⟩ := Line.parse_of_notMem (by decide) (by decide)
  have hglobal : Line.parse "global g" = .ok ⟨[], some ⟨"GLOBAL", ["g"]⟩⟩ :=
    Line.parse_of_notMem (by decide) (by decide)
  have hmov' : Line.parse "MOV R9 2147483648" = .ok ⟨[], some ⟨"MOV", ["R9", "2147483648"]⟩⟩ :=
    Line.parse_of_notMem (by decide) (by decide)
  have hret' : Line.parse "g: RET" = .ok ⟨["g"], some ⟨"RET", []⟩⟩ :=
    Line.parse_label "g" " RET" (by decide) (by decide) (by decide) (by decide)
  have hless : Line.parse "mov r9, 0x7FFF_FFFF" = .ok ⟨[], some ⟨"MOV", ["r9", "0x7FFF_FFFF"]⟩⟩ :=
    Line.parse_of_notMem (by decide) (by decide)
  have hlines : SourceLine.ofLines? 1 (Text.lines "f: mov r9, 0x8000_0000 ; long\nret") =
      some [⟨1, ["f"],
          .code (.mov 9 (.imm 0x80000000)) [0x49, 0xB9, 0x00, 0x00, 0x00, 0x80, 0x00, 0x00, 0x00, 0x00]⟩,
        ⟨2, [], .code .ret [0xC3]⟩] :=
    SourceLine.ofLines?_cons.mpr ⟨_, _, SourceLine.ofText?_of_parse hmov rfl,
      SourceLine.ofLines?_cons.mpr ⟨_, _, SourceLine.ofText?_of_parse hret rfl, rfl, rfl⟩, rfl⟩
  have hlines' : SourceLine.ofLines? 1 (Text.lines "global g\nMOV R9 2147483648\ng: RET") =
      some [⟨1, [], .exports ["g"]⟩,
        ⟨2, [],
          .code (.mov 9 (.imm 0x80000000)) [0x49, 0xB9, 0x00, 0x00, 0x00, 0x80, 0x00, 0x00, 0x00, 0x00]⟩,
        ⟨3, ["g"], .code .ret [0xC3]⟩] :=
    SourceLine.ofLines?_cons.mpr ⟨_, _, SourceLine.ofText?_of_parse hglobal rfl,
      SourceLine.ofLines?_cons.mpr ⟨_, _, SourceLine.ofText?_of_parse hmov' rfl,
        SourceLine.ofLines?_cons.mpr ⟨_, _, SourceLine.ofText?_of_parse hret' rfl, rfl, rfl⟩, rfl⟩, rfl⟩
  have hlesser : SourceLine.ofLines? 1 (Text.lines "mov r9, 0x7FFF_FFFF\nret") =
      some [⟨1, [], .code (.mov 9 (.imm 0x7FFFFFFF)) [0x49, 0xC7, 0xC1, 0xFF, 0xFF, 0xFF, 0x7F]⟩,
        ⟨2, [], .code .ret [0xC3]⟩] :=
    SourceLine.ofLines?_cons.mpr ⟨_, _, SourceLine.ofText?_of_parse hless rfl,
      SourceLine.ofLines?_cons.mpr ⟨_, _, SourceLine.ofText?_of_parse hret rfl, rfl, rfl⟩, rfl⟩
  have hobject : assemble "f: mov r9, 0x8000_0000 ; long\nret" = .ok _ :=
    assemble_eq_ok_iff.mpr ⟨_, hlines, ⟨by decide, by decide⟩, rfl⟩
  have hresult : assemble "global g\nMOV R9 2147483648\ng: RET" = .ok _ :=
    assemble_eq_ok_iff.mpr ⟨_, hlines', ⟨by decide, by decide⟩, rfl⟩
  have hrest : assemble "mov r9, 0x7FFF_FFFF\nret" = .ok _ :=
    assemble_eq_ok_iff.mpr ⟨_, hlesser, ⟨by decide, by decide⟩, rfl⟩
  have hprogram := (SourceLine.ofLines?_eq_some_iff_readFrom.mp hlines).program
  have hrival := (SourceLine.ofLines?_eq_some_iff_readFrom.mp hlesser).program
  obtain ⟨-, ⟨twin, htwin⟩, hsame⟩ := assemble_code_unique hobject hresult
  obtain ⟨-, -, hother⟩ := assemble_code_unique hobject hrest
  refine ⟨_, _, _, hobject, hresult, hrest, rfl, by decide, (hsame _ twin hprogram htwin).2 rfl, ?_,
    ⟨_, _, hprogram, hrival, rfl, rfl⟩, ?_⟩
  · intro p q hp hq
    exact (hsame p q hp hq).1.mp rfl
  · intro heq
    exact absurd ((hother _ _ hprogram hrival).1.mp heq) (by decide)

end StepLang
