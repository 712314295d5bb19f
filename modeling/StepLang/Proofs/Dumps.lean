import StepLang.CommandLine.InspectCommand
import StepLang.Proofs.Compilation
import StepLang.Proofs.TraceLines

/-!
# Machine code shown by instructions

A row shows the offset and the bytes of an instruction and the number of its line. It can be read back, so
the rows determine the slices of the object, which are the encodings of the lines.
-/

namespace StepLang

theorem Numeral.nat_injective {m n : Nat} (h : nat m = nat n) : m = n := by
  have hm := Literal.magnitude_nat false (Nat.le_max_left m n)
  have hn := Literal.magnitude_nat false (Nat.le_max_right m n)
  rw [h, hn, Except.ok.injEq] at hm
  exact hm.symm

namespace Slice

theorem text_eq (s : Slice) :
    s.text = Numeral.columns 30 s.offset s.bytes ((" ; line " : Text) ++ Numeral.nat s.line) := by
  rw [text, Numeral.columns, List.append_assoc _ ("  ; line " : Text)]
  rfl

theorem text_injective {s t : Slice} (h : s.text = t.text) : s = t := by
  rw [text_eq, text_eq] at h
  obtain ⟨hoffset, hbytes, h⟩ := Numeral.columns_injective h
  have hline := Numeral.nat_injective (List.append_cancel_left h)
  cases s
  cases t
  rw [Slice.mk.injEq]
  exact ⟨hoffset, hbytes, hline⟩

theorem newline_notMem_text (s : Slice) : Text.newline ∉ s.text := by
  rw [text_eq]
  apply Numeral.newline_notMem_columns
  intro h
  rcases List.mem_append.mp h with h | h
  · exact absurd h (by decide)
  · obtain ⟨c, hc, hdigit⟩ := Numeral.mem_nat h
    cases hc
    exact absurd hdigit (by decide)

theorem lines_texts (slices : List Slice) :
    (Text.unlines (slices.map text)).lines = slices.map text ++ [[]] := by
  apply Text.lines_unlines
  intro line hline
  obtain ⟨s, -, rfl⟩ := List.mem_map.mp hline
  exact newline_notMem_text s

theorem texts_injective {slices others : List Slice}
    (h : Text.unlines (slices.map text) = Text.unlines (others.map text)) : slices = others := by
  have hlines := congrArg Text.lines h
  rw [lines_texts, lines_texts] at hlines
  exact List.map_injective_iff.mpr (fun _ _ => text_injective) (List.append_cancel_right hlines)

end Slice

namespace Object

/-- A line for each slice, with its offset, all its bytes and the number of its line; no other slices are
shown so. -/
structure Shown (o : Object) (shown : Text) : Prop where
  rows : shown.lines =
    (o.slices.map fun s => Numeral.hex 4 s.offset ++ ("  " : Text) ++ Numeral.hexBytes s.bytes ++
      (List.replicate (30 - 2 * s.bytes.length) (.char ' ') : Text) ++ ("  ; line " : Text) ++
      Numeral.nat s.line) ++ [[]]
  readable : ∀ slices : List Slice, .unlines (slices.map Slice.text) = shown → slices = o.slices

theorem shown_slices (o : Object) : o.Shown (.unlines (o.slices.map Slice.text)) where
  rows := by
    rw [Slice.lines_texts]
    congr 1
    apply List.map_congr_left
    intro s _
    rw [Slice.text, Text.padRight, Numeral.length_hexBytes, ← List.append_assoc]
  readable _ h := Slice.texts_injective h

end Object

theorem showMachineCode_eq_ok_iff {source shown : Text} :
    InspectCommand.showMachineCode source = .ok shown ↔
      ∃ program object, compileProgram source = .ok program ∧
      assemble program = .ok object ∧ shown = .unlines (object.slices.map Slice.text) := by
  constructor
  · intro h
    unfold InspectCommand.showMachineCode at h
    split at h
    · cases h
    rename_i program hprogram
    split at h
    · cases h
    rename_i object hobject
    cases h
    exact ⟨program, object, hprogram, hobject, rfl⟩
  · rintro ⟨program, object, hprogram, hobject, rfl⟩
    simp only [InspectCommand.showMachineCode, hprogram, hobject]

/-- A text is assembled exactly when its lines can be read, no label stands twice and every export is a
label. What the first reading takes the second takes, to the same address, and the object is consistent with
the lines. So the rows that are shown of machine code are the instructions of its program, each with its
offset, its bytes and its line. -/
theorem assemble_consistent :
    (∀ source, (∃ object, assemble source = .ok object) ↔
      ∃ ls, SourceLine.ReadFrom source ls ∧ (SourceLine.labelled ls).Nodup ∧
        ∀ name ∈ SourceLine.exported ls, name ∈ SourceLine.labelled ls) ∧
    (∀ known other number ts s, (Survey.start known).takeLines number ts = (s, .ok ()) →
      ∃ d, (Draft.start other).takeLines number ts = .ok d ∧ d.known = other ∧ d.address = s.address ∧
        d.toObject.code.length = s.address) ∧
    (∀ source object, assemble source = .ok object → ∃ ls, SourceLine.ReadFrom source ls ∧
      object.Consistent ls) ∧
    ∀ source shown, InspectCommand.showMachineCode source = .ok shown ↔
      ∃ program object ls, compileProgram source = .ok program ∧ assemble program = .ok object ∧
        SourceLine.ReadFrom program ls ∧ object.Consistent ls ∧
        shown = .unlines (object.slices.map Slice.text) ∧ object.Shown shown := by
  refine ⟨?_, fun _ other _ _ _ h => Draft.takeLines_of_survey h other,
    fun _ _ h => consistent_of_assemble h, ?_⟩
  · intro source
    constructor
    · rintro ⟨object, h⟩
      obtain ⟨ls, hls, hlinked, -⟩ := assemble_eq_ok_iff.mp h
      exact ⟨ls, SourceLine.ofLines?_eq_some_iff_readFrom.mp hls, hlinked⟩
    · rintro ⟨ls, hread, hlinked⟩
      exact ⟨_, assemble_eq_ok_iff.mpr ⟨ls, SourceLine.ofLines?_eq_some_iff_readFrom.mpr hread, hlinked, rfl⟩⟩
  · intro source shown
    rw [showMachineCode_eq_ok_iff]
    constructor
    · rintro ⟨program, object, hprogram, hobject, hshown⟩
      obtain ⟨ls, hread, hconsistent⟩ := consistent_of_assemble hobject
      exact ⟨program, object, ls, hprogram, hobject, hread, hconsistent, hshown, hshown ▸ object.shown_slices⟩
    · rintro ⟨program, object, -, hprogram, hobject, -, -, hshown, -⟩
      exact ⟨program, object, hprogram, hobject, hshown⟩

theorem assemble_consistent_labels :
    (∃ object ls d, assemble "global end, f\nf: g: mov rax, 1 ; one\nret\nend:" = .ok object ∧
      SourceLine.ReadFrom "global end, f\nf: g: mov rax, 1 ; one\nret\nend:" ls ∧ object.Consistent ls ∧
      (Draft.start .empty).takeLines 1
      (Text.lines "global end, f\nf: g: mov rax, 1 ; one\nret\nend:") = .ok d ∧ d.address = 8) ∧
    ∃ (shown : Text) (object : Object) (ls : List SourceLine),
      InspectCommand.showMachineCode "(add1 5)" = .ok shown ∧ object.Consistent ls ∧
      object.slices = [⟨0, [0x48, 0xC7, 0xC0, 0x05, 0x00, 0x00, 0x00], 4⟩, ⟨7, [0x48, 0x83, 0xC0, 0x01], 5⟩,
        ⟨11, [0xC3], 6⟩] ∧
      shown.lines = [("0000  48c7c005000000                  ; line 4" : Text),
        ("0007  4883c001                        ; line 5" : Text),
        ("000b  c3                              ; line 6" : Text), []] := by
  have hglobal : Line.parse "global end, f" = .ok ⟨[], some ⟨"GLOBAL", ["end", "f"]⟩⟩ :=
    Line.parse_of_notMem (by decide) (by decide)
  have hmov : Line.parse "f: g: mov rax, 1 ; one" = .ok ⟨["f", "g"], some ⟨"MOV", ["rax", "1"]⟩⟩ := by
    have hline :
        Text.trim (Line.beforeComment "f: g: mov rax, 1 ; one") = "f" ++ Line.colon :: " g: mov rax, 1" := rfl
    have hrest : Text.trim " g: mov rax, 1" = "g" ++ Line.colon :: " mov rax, 1" := rfl
    rw [Line.parse, hline, Line.takeLabels_label (by decide) (by decide), hrest,
      Line.takeLabels_label (by decide) (by decide), Line.takeLabels_of_notMem (by decide)]
    rfl
  have hret : Line.parse "ret" = .ok ⟨[], some ⟨"RET", []⟩⟩ := Line.parse_of_notMem (by decide) (by decide)
  have hend : Line.parse "end:" = .ok ⟨["end"], none⟩ :=
    Line.parse_label "end" "" (by decide) (by decide) (by decide) (by decide)
  have hlines : SourceLine.ofLines? 1 (Text.lines "global end, f\nf: g: mov rax, 1 ; one\nret\nend:") =
      some [⟨1, [], .exports ["end", "f"]⟩,
        ⟨2, ["f", "g"], .code (.mov 0 (.imm 1)) [0x48, 0xC7, 0xC0, 0x01, 0x00, 0x00, 0x00]⟩,
        ⟨3, [], .code .ret [0xC3]⟩, ⟨4, ["end"], .nothing⟩] :=
    SourceLine.ofLines?_cons.mpr ⟨_, _, SourceLine.ofText?_of_parse hglobal rfl,
      SourceLine.ofLines?_cons.mpr ⟨_, _, SourceLine.ofText?_of_parse hmov rfl,
        SourceLine.ofLines?_cons.mpr ⟨_, _, SourceLine.ofText?_of_parse hret rfl,
          SourceLine.ofLines?_cons.mpr ⟨_, _, SourceLine.ofText?_of_parse hend rfl, rfl, rfl⟩,
          rfl⟩, rfl⟩, rfl⟩
  obtain ⟨object, hobject⟩ := (assemble_consistent.1 _).mpr
    ⟨_, SourceLine.ofLines?_eq_some_iff_readFrom.mp hlines, by decide, by decide⟩
  obtain ⟨ls, hread, hconsistent⟩ := assemble_consistent.2.2.1 _ _ hobject
  obtain ⟨d, hd, -, haddress, -⟩ := assemble_consistent.2.1 _ .empty _ _ _
    (Survey.takeLines_eq_ok_iff.mpr ⟨_, hlines, SourceLine.fresh_start.mpr (by decide), rfl⟩)
  have hparse : Expr.parse "(add1 5)" = .ok (.apply .add1 (.num 5)) := rfl
  have hslices :
      (SourceLine.draft
        (Listing.programLines (Expr.instructions (.apply .add1 (.num 5)) 5))).toObject.slices =
      [⟨0, [0x48, 0xC7, 0xC0, 0x05, 0x00, 0x00, 0x00], 4⟩, ⟨7, [0x48, 0x83, 0xC0, 0x01], 5⟩,
        ⟨11, [0xC3], 6⟩] := rfl
  have hshow := showMachineCode_eq_ok_iff.mpr ⟨_, _, Expr.compileProgram_of_literal hparse rfl,
    Listing.assemble_program (Expr.encode_instructions _ _), rfl⟩
  obtain ⟨-, shownObject, shownLines, -, -, -, hsame, -, hshown⟩ := (assemble_consistent.2.2.2 _ _).mp hshow
  have hrows := (hshown.readable _ rfl).symm.trans hslices
  refine ⟨⟨object, ls, d, hobject, hread, hconsistent, hd, haddress⟩, _, shownObject, shownLines, hshow,
    hsame, hrows, ?_⟩
  rw [hshown.rows, hrows]
  simp only [List.map_cons, List.map_nil, Numeral.hexBytes, List.flatMap_cons, List.flatMap_nil,
    Numeral.hexByte, Numeral.hex, Numeral.nat, Numeral.digits_eq (show 1 < 16 by decide),
    Numeral.digits_eq (show 1 < 10 by decide)]
  rfl

end StepLang
