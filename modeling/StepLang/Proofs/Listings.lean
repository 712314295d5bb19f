import StepLang.Proofs.Consistency
import StepLang.Proofs.Template

/-!
# Programs around listings

A listing of statements that are written for instructions has a program that assembles, whatever the
instructions are: its code is their encodings and a return, its only label is the entry in front of them,
and the line of every instruction follows from its place in the listing.
-/

namespace StepLang

/-- An immediate is in the signed range of four bytes. -/
def Operand.Short : Operand → Prop
  | reg _ => True
  | imm v => -0x80000000 ≤ v.toInt ∧ v.toInt < 0x80000000

namespace Instruction

theorem exists_encode_mov (dst : Register) (src : Operand) : ∃ bytes, (mov dst src).encode? = some bytes := by
  cases src with
  | reg r => exact ⟨_, rfl⟩
  | imm v =>
    rw [encode?]
    split
    · exact ⟨_, rfl⟩
    · exact ⟨_, rfl⟩

theorem exists_encode_alu_iff {op : AluOp} {dst : Register} {src : Operand} :
    (∃ bytes, (alu op dst src).encode? = some bytes) ↔ src.Short := by
  cases src with
  | reg r => exact ⟨fun _ => trivial, fun _ => ⟨_, rfl⟩⟩
  | imm v =>
    rw [Operand.Short, ← Encoding.fits_four, encode?]
    by_cases hbyte : Encoding.fits 1 v = true
    · rw [if_pos hbyte]
      exact ⟨fun _ => Encoding.fits_mono (by decide) hbyte, fun _ => ⟨_, rfl⟩⟩
    rw [if_neg hbyte]
    by_cases hword : Encoding.fits 4 v = true
    · rw [if_pos hword]
      exact ⟨fun _ => hword, fun _ => ⟨_, rfl⟩⟩
    · rw [if_neg hword]
      constructor
      · rintro ⟨bytes, h⟩
        cases h
      · intro h
        exact absurd h hword

end Instruction

namespace Statement

/-- How instructions are written. Where no destination is written no source is written either, so it may be
any. -/
inductive Writes : Statement → Instruction → Prop where
  | ret (src : Text) : Writes ⟨"ret", [], src⟩ .ret
  | nop (src : Text) : Writes ⟨"nop", [], src⟩ .nop
  | mov (dst : Register) (src : Operand) : Writes ⟨"mov", dst.name, src.text⟩ (.mov dst src)
  | add (dst : Register) {src : Operand} (hshort : src.Short) :
      Writes ⟨"add", dst.name, src.text⟩ (.alu .add dst src)
  | sub (dst : Register) {src : Operand} (hshort : src.Short) :
      Writes ⟨"sub", dst.name, src.text⟩ (.alu .sub dst src)

theorem Writes.text_eq {s : Statement} {i : Instruction} (h : s.Writes i) : s.text = i.statement.text := by
  cases h <;> rfl

theorem Writes.encode {s : Statement} {i : Instruction} (h : s.Writes i) :
    ∃ bytes, i.encode? = some bytes := by
  cases h with
  | ret src => exact ⟨_, rfl⟩
  | nop src => exact ⟨_, rfl⟩
  | mov dst src => exact Instruction.exists_encode_mov dst src
  | add dst hshort => exact Instruction.exists_encode_alu_iff.mpr hshort
  | sub dst hshort => exact Instruction.exists_encode_alu_iff.mpr hshort

end Statement

namespace Listing

theorem program_eq {l : Listing} {is : List Instruction} (h : List.Forall₂ Statement.Writes l is) :
    l.program = program (is.map Instruction.statement) := by
  have hlines : l.lines = Listing.lines (is.map Instruction.statement) := by
    induction h with
    | nil => rfl
    | cons hs _ ih => exact congrArg₂ List.cons hs.text_eq ih
  rw [program, program, hlines]

theorem encodings {l : Listing} {is : List Instruction} (h : List.Forall₂ Statement.Writes l is) :
    ∃ chunks : List (List UInt8), is.map Instruction.encode? = chunks.map some := by
  induction h with
  | nil => exact ⟨[], rfl⟩
  | cons hs _ ih =>
    obtain ⟨bytes, hbytes⟩ := hs.encode
    obtain ⟨chunks, hchunks⟩ := ih
    exact ⟨bytes :: chunks, by rw [List.map_cons, List.map_cons, hbytes, hchunks]⟩

end Listing

namespace Instruction

theorem code_eq_flatten {is : List Instruction} {chunks : List (List UInt8)}
    (h : is.map encode? = chunks.map some) :
    code is = chunks.flatten := by
  have hgetD : is.map (fun i => i.encode?.getD []) = chunks := by
    have hmap := congrArg (List.map fun bytes => bytes.getD []) h
    simpa [Function.comp_def] using hmap
  rw [code, List.flatMap_def, hgetD]

theorem starts_numbered (address number : Nat) (is : List Instruction) :
    Interpretation.starts address (numbered number is) =
      (List.range is.length).map fun k => (address + (code (is.take k)).length, number + k) := by
  induction is generalizing address number with
  | nil => rfl
  | cons i is ih =>
    rw [numbered, Interpretation.starts, ih, List.length_cons, List.range_succ_eq_map,
      List.map_cons, List.map_map]
    refine congrArg₂ List.cons rfl (List.map_congr_left ?_)
    intro k _
    simp [code]
    omega

end Instruction

namespace Listing

theorem symbols_program (is : List Instruction) :
    (SourceLine.draft (programLines is)).toObject.symbols = [(entryLabel, 0)] := by
  have hnames := symbols_toObject (programLines is)
  apply congrArg (List.map Prod.fst) at hnames
  rw [SourceLine.labels_along, labelled_program, List.map_eq_singleton_iff] at hnames
  obtain ⟨⟨name, offset⟩, hreverse, rfl⟩ := hnames
  have hsymbols := List.reverse_eq_iff.mp hreverse
  have hentry := entry_program is
  rw [Object.entry?, if_neg (by decide), hsymbols, List.reverse_singleton, List.lookup_cons_self,
    Option.some.injEq] at hentry
  rw [hsymbols, hentry, List.reverse_singleton]

theorem sourceMap_program {is : List Instruction} (h : ∀ i ∈ is, ∃ bytes, i.encode? = some bytes) :
    (SourceLine.draft (programLines is)).toObject.sourceMap =
      (List.range (is.length + 1)).map fun k => ((Instruction.code (is.take k)).length, 4 + k) := by
  rw [sourceMap_toObject, ← SourceLine.starts_instructions (SourceLine.ofLines?_encoded (ofLines?_program h)),
    instructions_program, Instruction.starts_numbered, List.length_append, List.length_singleton]
  refine List.map_congr_left ?_
  intro k hk
  have hle : k ≤ is.length := by
    have hlt := List.mem_range.mp hk
    omega
  rw [List.take_append_of_le_length hle, Nat.zero_add]

end Listing

/-- The program around statements that are written for instructions assembles, and this is its object. -/
theorem assemble_listing {l : Listing} {is : List Instruction} (h : List.Forall₂ Statement.Writes l is) :
    ∃ encodings : List (List UInt8), is.map Instruction.encode? = encodings.map some ∧
      assemble l.program = .ok
        { code := encodings.flatten ++ [0xC3]
          symbols := [(Listing.entryLabel, 0)]
          globals := [Listing.entryLabel]
          sourceMap :=
          (List.range (l.length + 1)).map fun k => ((encodings.take k).flatten.length, 4 + k) } := by
  obtain ⟨chunks, hchunks⟩ := Listing.encodings h
  have hencode : ∀ i ∈ is, ∃ bytes, i.encode? = some bytes := by
    intro i hi
    have hmem : i.encode? ∈ chunks.map some := hchunks ▸ List.mem_map_of_mem hi
    obtain ⟨bytes, -, hbytes⟩ := List.mem_map.mp hmem
    exact ⟨bytes, hbytes.symm⟩
  refine ⟨chunks, hchunks, ?_⟩
  rw [Listing.program_eq h, Listing.assemble_program hencode, Except.ok.injEq, Object.mk.injEq]
  refine ⟨?_, Listing.symbols_program is, ?_, ?_⟩
  · rw [Listing.code_program hencode, Instruction.code_numbered, Instruction.code, List.flatMap_append,
      ← Instruction.code, Instruction.code_eq_flatten hchunks]
    rfl
  · rw [globals_toObject, Listing.exported_program]
  · have hstart : ∀ k, Instruction.code (is.take k) = (chunks.take k).flatten := by
      intro k
      apply Instruction.code_eq_flatten
      rw [List.map_take, List.map_take, hchunks]
    simp only [Listing.sourceMap_program hencode, hstart, h.length_eq]

/-- The least immediate takes the long form, and a return among the statements carries a source that is not
written. -/
theorem assemble_listing_least :
    assemble (Listing.program [⟨"mov", "r15", "-9223372036854775808"⟩, ⟨"ret", [], "rax"⟩,
        ⟨"sub", "rsp", "-129"⟩]) =
      .ok ⟨[0x49, 0xBF, 0x00, 0x00, 0x00, 0x00, 0x00, 0x00, 0x00, 0x80, 0xC3, 0x48, 0x81, 0xEC, 0x7F, 0xFF,
          0xFF, 0xFF, 0xC3],
        [("our_code_starts_here", 0)], ["our_code_starts_here"], [(0, 4), (10, 5), (11, 6), (18, 7)]⟩ := by
  have hleast : Operand.text (.imm (-9223372036854775808)) = "-9223372036854775808" := by
    rw [Operand.text, Numeral.int, if_pos (by decide), Numeral.nat_eq]
    rfl
  have hsmall : Operand.text (.imm (-129)) = "-129" := by
    rw [Operand.text, Numeral.int, if_pos (by decide), Numeral.nat_eq]
    rfl
  have hshort : Operand.Short (.imm (-129)) := by
    unfold Operand.Short
    decide
  have hlisting := List.Forall₂.cons (Statement.Writes.mov 15 (.imm (-9223372036854775808)))
    (.cons (.ret "rax") (.cons (.sub 4 hshort) .nil))
  rw [hleast, hsmall] at hlisting
  obtain ⟨encodings, hencodings, hassemble⟩ := assemble_listing hlisting
  have hbytes : encodings =
      [[0x49, 0xBF, 0x00, 0x00, 0x00, 0x00, 0x00, 0x00, 0x00, 0x80], [0xC3],
        [0x48, 0x81, 0xEC, 0x7F, 0xFF, 0xFF, 0xFF]] := by
    apply List.map_injective_iff.mpr fun _ _ => Option.some.inj
    rw [← hencodings]
    rfl
  rw [hbytes] at hassemble
  exact hassemble

end StepLang
