import Mathlib.Data.List.Forall2
import Mathlib.Data.List.Nodup
import StepLang.Assembly.Dump
import StepLang.Proofs.Encoding
import StepLang.Proofs.Layout
import StepLang.Proofs.Lines

/-!
# Objects and the lines they are made of

Both readings of a text come to the same address at every line. So an object has each label where the bytes
of its line begin, one entry in the source map for each instruction, in the order of the lines, and cutting
its code at these entries gives the encodings of the instructions back.
-/

namespace StepLang

namespace SourceLine

/-- The lines of a text as they are read one by one, numbered from one. -/
def ReadFrom (source : Text) (ls : List SourceLine) : Prop :=
  List.Forall₂ Reads source.lines ls ∧ ls.map number = List.range' 1 ls.length

theorem ofLines?_eq_some_iff {number : Nat} {ts : List Text} {ls : List SourceLine} :
    ofLines? number ts = some ls ↔
      List.Forall₂ Reads ts ls ∧ ls.map SourceLine.number = List.range' number ls.length := by
  induction ts generalizing number ls with
  | nil =>
    constructor
    · intro h
      cases h
      exact ⟨.nil, rfl⟩
    · rintro ⟨hreads, -⟩
      cases hreads
      rfl
  | cons t ts ih =>
    rw [ofLines?_cons]
    constructor
    · rintro ⟨l, rest, hl, hrest, rfl⟩
      obtain ⟨hnumber, hreads⟩ := ofText?_eq_some_iff.mp hl
      obtain ⟨hall, hnumbers⟩ := ih.mp hrest
      refine ⟨.cons hreads hall, ?_⟩
      rw [List.map_cons, List.length_cons, List.range'_succ, hnumber, hnumbers]
    · rintro ⟨hreads, hnumbers⟩
      cases hreads with
      | @cons _ l _ rest hl hrest =>
        rw [List.map_cons, List.length_cons, List.range'_succ, List.cons.injEq] at hnumbers
        exact ⟨l, rest, ofText?_eq_some_iff.mpr ⟨hnumbers.1, hl⟩, ih.mpr ⟨hrest, hnumbers.2⟩, rfl⟩

theorem ofLines?_eq_some_iff_readFrom {source : Text} {ls : List SourceLine} :
    ofLines? 1 source.lines = some ls ↔ ReadFrom source ls := ofLines?_eq_some_iff

/-- What is found at the lines, each given the address of its line. -/
def along {α : Type} (f : Nat → SourceLine → List α) (address : Nat) : List SourceLine → List α
  | [] => []
  | l :: rest => f address l ++ along f (address + l.size) rest

theorem mem_along {α : Type} {f : Nat → SourceLine → List α} {address : Nat} {ls : List SourceLine} {a : α} :
    a ∈ along f address ls ↔
      ∃ before l rest, ls = before ++ l :: rest ∧ a ∈ f (address + (code before).length) l := by
  induction ls generalizing address with
  | nil => simp [along]
  | cons first ls ih =>
    rw [along, List.mem_append, ih]
    constructor
    · rintro (h | ⟨before, l, rest, rfl, h⟩)
      · exact ⟨[], first, ls, rfl, h⟩
      · refine ⟨first :: before, l, rest, rfl, ?_⟩
        simpa [code, size, Nat.add_assoc] using h
    · rintro ⟨before, l, rest, hls, h⟩
      cases before with
      | nil =>
        cases hls
        exact .inl h
      | cons _ before =>
        cases hls
        refine .inr ⟨before, l, rest, rfl, ?_⟩
        simpa [code, size, Nat.add_assoc] using h

theorem map_along {α β : Type} (g : α → β) (f : Nat → SourceLine → List α) (address : Nat)
    (ls : List SourceLine) :
    (along f address ls).map g = along (fun a l => (f a l).map g) address ls := by
  induction ls generalizing address with
  | nil => rfl
  | cons l ls ih => rw [along, along, List.map_append, ih]

theorem along_eq_flatMap {α : Type} (f : SourceLine → List α) (address : Nat) (ls : List SourceLine) :
    along (fun _ l => f l) address ls = ls.flatMap f := by
  induction ls generalizing address with
  | nil => rfl
  | cons l ls ih => rw [along, ih, List.flatMap_cons]

def symbolsAt (address : Nat) (l : SourceLine) : List (Text × Nat) := l.labels.map fun name => (name, address)

def slicesAt (address : Nat) (l : SourceLine) : List Slice :=
  match l.content with
  | .code _ bytes => [⟨address, bytes, l.number⟩]
  | _ => []

theorem mapFrom_eq_along (address : Nat) (ls : List SourceLine) :
    mapFrom address ls = along (fun a l => (slicesAt a l).map fun s => (s.offset, s.line)) address ls := by
  induction ls generalizing address with
  | nil => rfl
  | cons l ls ih =>
    rw [mapFrom, along, slicesAt, ← ih]
    cases l.content <;> rfl

/-- Lines before the first instruction take no room. -/
theorem mapFrom_head {address : Nat} {ls : List SourceLine} :
    (mapFrom address ls = [] ∧ code ls = []) ∨
      ∃ number rest, mapFrom address ls = (address, number) :: rest := by
  induction ls with
  | nil => exact .inl ⟨rfl, rfl⟩
  | cons l ls ih =>
    cases hl : l.content with
    | code i bytes => exact .inr ⟨l.number, mapFrom (address + l.size) ls, by simp [mapFrom, hl]⟩
    | nothing => simpa [mapFrom, hl, size, code, Content.bytes] using ih
    | textSection => simpa [mapFrom, hl, size, code, Content.bytes] using ih
    | exports names => simpa [mapFrom, hl, size, code, Content.bytes] using ih

theorem cut_cons (address number : Nat) (bytes : List UInt8) (ls : List SourceLine) :
    Slice.cut (bytes ++ code ls) ((address, number) :: mapFrom (address + bytes.length) ls) =
      ⟨address, bytes, number⟩ :: Slice.cut (code ls) (mapFrom (address + bytes.length) ls) := by
  rcases @mapFrom_head (address + bytes.length) ls with ⟨hmap, hcode⟩ | ⟨next, rest, hmap⟩
  · rw [hmap, hcode, List.append_nil]
    rfl
  · have hsize : address + bytes.length - address = bytes.length := by omega
    rw [hmap, Slice.cut, hsize, List.take_left, List.drop_left]

theorem cut_mapFrom (address : Nat) (ls : List SourceLine) :
    Slice.cut (code ls) (mapFrom address ls) = along slicesAt address ls := by
  induction ls generalizing address with
  | nil => rfl
  | cons l ls ih =>
    rw [along, slicesAt, ← ih]
    cases hl : l.content with
    | code i bytes =>
      have hcut := cut_cons address l.number bytes ls
      simpa [mapFrom, hl, size, code, Content.bytes] using hcut
    | nothing => simp [mapFrom, hl, size, code, Content.bytes]
    | textSection => simp [mapFrom, hl, size, code, Content.bytes]
    | exports names => simp [mapFrom, hl, size, code, Content.bytes]

theorem mem_slicesAt {address : Nat} {l : SourceLine} {s : Slice} :
    s ∈ slicesAt address l ↔ ∃ i bytes, l.content = .code i bytes ∧ s = ⟨address, bytes, l.number⟩ := by
  unfold slicesAt
  cases l.content <;> simp

theorem mem_mapFrom {address offset n : Nat} {ls : List SourceLine} :
    (offset, n) ∈ mapFrom address ls ↔ ∃ before l rest i bytes, ls = before ++ l :: rest ∧
      l.content = .code i bytes ∧ l.number = n ∧ offset = address + (code before).length := by
  rw [mapFrom_eq_along, mem_along]
  constructor
  · rintro ⟨before, l, rest, hls, hmem⟩
    obtain ⟨s, hs, heq⟩ := List.mem_map.mp hmem
    obtain ⟨i, bytes, hcontent, rfl⟩ := mem_slicesAt.mp hs
    cases heq
    exact ⟨before, l, rest, i, bytes, hls, hcontent, rfl, rfl⟩
  · rintro ⟨before, l, rest, i, bytes, hls, hcontent, rfl, rfl⟩
    exact ⟨before, l, rest, hls, List.mem_map.mpr ⟨_, mem_slicesAt.mpr ⟨i, bytes, hcontent, rfl⟩, rfl⟩⟩

theorem ascending_mapFrom {address : Nat} {ls : List SourceLine} (hencoded : Encoded ls)
    (hnumbers : (ls.map number).Pairwise (· < ·)) :
    (mapFrom address ls).Pairwise fun p q => p.1 < q.1 ∧ p.2 < q.2 := by
  induction ls generalizing address with
  | nil => exact .nil
  | cons l ls ih =>
    obtain ⟨hl, hls⟩ := List.forall_mem_cons.mp hencoded
    obtain ⟨hfirst, hrest⟩ := List.pairwise_cons.mp hnumbers
    have hlater := @ih (address + l.size) hls hrest
    rw [mapFrom]
    split
    · rename_i i bytes hcontent
      refine List.pairwise_cons.mpr ⟨?_, hlater⟩
      rintro ⟨offset, n⟩ hmem
      obtain ⟨before, m, rest, -, -, hsplit, -, rfl, rfl⟩ := mem_mapFrom.mp hmem
      have hpos := (Instruction.length_encode (hl i bytes hcontent)).1
      have hsize : l.size = bytes.length := by rw [size, hcontent, Content.bytes]
      have hmember : m ∈ ls := by simp [hsplit]
      exact ⟨by simp only; omega, hfirst _ (List.mem_map_of_mem hmember)⟩
    · exact hlater

end SourceLine

theorem Survey.labels_foldl (s : Survey) (ls : List SourceLine) :
    (ls.foldl add s).known.labels.reverse =
      s.known.labels.reverse ++ SourceLine.along SourceLine.symbolsAt s.address ls := by
  induction ls generalizing s with
  | nil => simp [SourceLine.along]
  | cons l ls ih =>
    have hl : (s.add l).known.labels.reverse = s.known.labels.reverse ++
        SourceLine.symbolsAt s.address l := by
      unfold add count SourceLine.symbolsAt
      cases l.content <;> simp [addLabels]
    rw [List.foldl_cons, ih, hl, address_add, SourceLine.along, List.append_assoc]

theorem symbols_toObject (ls : List SourceLine) :
    (SourceLine.draft ls).toObject.symbols.reverse = SourceLine.along SourceLine.symbolsAt 0 ls := by
  change (SourceLine.draft ls).known.labels.reverse = _
  rw [SourceLine.known_draft, SourceLine.survey, Survey.labels_foldl]
  rfl

theorem globals_toObject (ls : List SourceLine) :
    (SourceLine.draft ls).toObject.globals = SourceLine.exported ls := by
  change (SourceLine.draft ls).known.globals.reverse = _
  rw [SourceLine.known_draft, SourceLine.globals_survey]

theorem slices_toObject (ls : List SourceLine) :
    (SourceLine.draft ls).toObject.slices = SourceLine.along SourceLine.slicesAt 0 ls := by
  rw [Object.slices, code_toObject, sourceMap_toObject, SourceLine.cut_mapFrom]

/-- The bytes of an instruction with the number of its line. -/
def SourceLine.encoding? (l : SourceLine) : Option (Nat × List UInt8) :=
  match l.content with
  | .code _ bytes => some (l.number, bytes)
  | _ => none

namespace Object

/-- The object is what the lines say, line by line and in their order. -/
structure Consistent (o : Object) (ls : List SourceLine) : Prop where
  code : o.code = (ls.map fun l => l.content.bytes).flatten
  symbols : ∀ name offset, (name, offset) ∈ o.symbols ↔
    ∃ before l rest, ls = before ++ l :: rest ∧ name ∈ l.labels ∧ offset = (SourceLine.code before).length
  distinct : (o.symbols.map Prod.fst).Nodup
  lands : ∀ name offset, (name, offset) ∈ o.symbols →
    offset ≤ o.code.length ∧ (offset = o.code.length ∨ ∃ n, (offset, n) ∈ o.sourceMap)
  globals : o.globals = (ls.map fun l => l.content.exported).flatten
  sourceMap : ∀ offset n, (offset, n) ∈ o.sourceMap ↔ ∃ before l rest i bytes, ls = before ++ l :: rest ∧
    l.content = .code i bytes ∧ l.number = n ∧ offset = (SourceLine.code before).length
  ascending : o.sourceMap.Pairwise fun p q => p.1 < q.1 ∧ p.2 < q.2
  cuts : (o.slices.map fun s => (s.offset, s.line)) = o.sourceMap
  encodings : (o.slices.map fun s => (s.line, s.bytes)) = ls.filterMap SourceLine.encoding?
  between : ∀ s ∈ o.slices, ∃ before rest, o.code = before ++ s.bytes ++ rest ∧ s.offset = before.length
  whole : (o.slices.map Slice.bytes).flatten = o.code

end Object

namespace SourceLine

theorem lands {ls before rest : List SourceLine} (h : ls = before ++ rest) :
    (code before).length ≤ (code ls).length ∧
      ((code before).length = (code ls).length ∨ ∃ n, ((code before).length, n) ∈ mapFrom 0 ls) := by
  subst h
  rw [code_append, List.length_append, mapFrom_append, Nat.zero_add]
  refine ⟨by omega, ?_⟩
  rcases @mapFrom_head (code before).length rest with ⟨-, hcode⟩ | ⟨n, others, hmap⟩
  · exact .inl (by simp [hcode])
  · exact .inr ⟨n, List.mem_append_right _ (by simp [hmap])⟩

theorem labels_along (ls : List SourceLine) : (along symbolsAt 0 ls).map Prod.fst = labelled ls := by
  have hnames : (fun (a : Nat) (l : SourceLine) => (symbolsAt a l).map Prod.fst) = fun _ l => l.labels := by
    funext a l
    simp [symbolsAt, Function.comp_def]
  rw [map_along, hnames, along_eq_flatMap]
  rfl

theorem encodings_along (ls : List SourceLine) :
    ((along slicesAt 0 ls).map fun s => (s.line, s.bytes)) = ls.filterMap encoding? := by
  have hat : (fun (a : Nat) (l : SourceLine) => (slicesAt a l).map fun s => (s.line, s.bytes)) =
      fun _ l => l.encoding?.toList := by
    funext a l
    unfold slicesAt encoding?
    cases l.content <;> rfl
  rw [map_along, hat, along_eq_flatMap, List.filterMap_eq_flatMap_toList]

theorem bytes_along (address : Nat) (ls : List SourceLine) :
    ((along slicesAt address ls).map Slice.bytes).flatten = code ls := by
  induction ls generalizing address with
  | nil => rfl
  | cons l ls ih =>
    have hl : ((slicesAt address l).map Slice.bytes).flatten = l.content.bytes := by
      unfold slicesAt
      cases l.content <;> simp [Content.bytes]
    rw [along, List.map_append, List.flatten_append, hl, ih]
    rfl

theorem consistent_draft {ls : List SourceLine} (hencoded : Encoded ls)
    (hnumbers : (ls.map number).Pairwise (· < ·))
    (hlabels : (labelled ls).Nodup) : (draft ls).toObject.Consistent ls := by
  have hsymbols : ∀ name offset, (name, offset) ∈ (draft ls).toObject.symbols ↔
      ∃ before l rest, ls = before ++ l :: rest ∧ name ∈ l.labels ∧ offset = (code before).length := by
    intro name offset
    rw [← List.mem_reverse, symbols_toObject, mem_along]
    simp [symbolsAt, eq_comm]
  refine {
    code := by rw [code_toObject, code, List.flatMap_def]
    symbols := hsymbols
    distinct := by
      rw [← List.nodup_reverse, ← List.map_reverse, symbols_toObject, labels_along]
      exact hlabels
    lands := by
      intro name offset hmem
      obtain ⟨before, l, rest, hls, -, rfl⟩ := (hsymbols name offset).mp hmem
      rw [code_toObject, sourceMap_toObject]
      exact lands hls
    globals := by rw [globals_toObject, exported, List.flatMap_def]
    sourceMap := by
      intro offset n
      simp only [sourceMap_toObject, mem_mapFrom, Nat.zero_add]
    ascending := by
      rw [sourceMap_toObject]
      exact ascending_mapFrom hencoded hnumbers
    cuts := by rw [slices_toObject, sourceMap_toObject, map_along, ← mapFrom_eq_along]
    encodings := by rw [slices_toObject, encodings_along]
    between := by
      intro s hs
      rw [slices_toObject, mem_along] at hs
      obtain ⟨before, l, rest, rfl, hmem⟩ := hs
      obtain ⟨i, bytes, hcontent, rfl⟩ := mem_slicesAt.mp hmem
      refine ⟨code before, code rest, ?_, Nat.zero_add _⟩
      rw [code_toObject, code_append]
      simp [code, hcontent, Content.bytes]
    whole := by rw [slices_toObject, code_toObject, bytes_along] }

end SourceLine

theorem Draft.takeLines_of_survey {known : Assembler} {number : Nat} {ts : List Text} {s : Survey}
    (h : (Survey.start known).takeLines number ts = (s, .ok ())) (other : Assembler) :
    ∃ d, (Draft.start other).takeLines number ts = .ok d ∧ d.known = other ∧ d.address = s.address ∧
      d.toObject.code.length = s.address := by
  obtain ⟨ls, hls, -, rfl⟩ := Survey.takeLines_eq_ok_iff.mp h
  have hcode : (ls.foldl emit (.start other)).toObject.code = SourceLine.code ls := code_foldl _ ls
  refine ⟨_, takeLines_of_some hls _, known_foldl _ ls, ?_, ?_⟩
  · rw [address_foldl, Survey.address_foldl]
    rfl
  · rw [hcode, Survey.address_foldl]
    exact (Nat.zero_add _).symm

theorem SourceLine.consistent_of_readFrom {source : Text} {ls : List SourceLine} (h : ReadFrom source ls)
    (hlabels : (labelled ls).Nodup) : (draft ls).toObject.Consistent ls := by
  have hnumbers : (ls.map number).Pairwise (· < ·) := by
    rw [h.2]
    exact List.pairwise_lt_range' 1 Nat.one_pos
  exact consistent_draft (ofLines?_encoded (ofLines?_eq_some_iff_readFrom.mpr h)) hnumbers hlabels

theorem consistent_of_assemble {source : Text} {object : Object} (h : assemble source = .ok object) :
    ∃ ls, SourceLine.ReadFrom source ls ∧ object.Consistent ls := by
  obtain ⟨ls, hls, hlinked, rfl⟩ := assemble_eq_ok_iff.mp h
  have hread := SourceLine.ofLines?_eq_some_iff_readFrom.mp hls
  exact ⟨ls, hread, SourceLine.consistent_of_readFrom hread hlinked.1⟩

end StepLang
